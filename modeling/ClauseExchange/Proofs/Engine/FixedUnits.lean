import ClauseExchange.Engine.Simulated
import ClauseExchange.Proofs.Failing

/-!
# Fixing units

Units are fixed in the order in which they come, and one whose negation is fixed is passed over.
`FixedUnits.Refutes` says that there is such a unit among those of some clauses.

* `FixedUnits.fix?_eq_ok` says what becomes of one unit.
* `FixedUnits.fixAll_eq_ok` says that the answer for many tells whether one was passed over.
* `FixedUnits.Consistent.fixAll` says that no unit is fixed along with its negation.
* `FixedUnits.mem_fixAll_iff` says which units are fixed in the end: of every variable the first.
-/

namespace ClauseExchange

/-- A unit whose literal has a negation: it is a signed word, but not the smallest. -/
def Clause.IsSafeUnit (c : Clause) : Prop :=
  ∃ l, c.literals = [l] ∧ SignedWord.min < l ∧ l ≤ SignedWord.max

namespace FixedUnits

variable {us us' : FixedUnits} {l : Literal} {c : Clause} {cs : List Clause} {met answer : Bool}
  {f : Fault}

/-- One of the clauses brings a unit whose negation is fixed by then. -/
def Refutes (us : FixedUnits) (cs : List Clause) : Prop :=
  ∃ earlier c later l, cs = earlier ++ c :: later ∧ c.literals.head? = some l ∧
    -l ∈ (us.fixAll false earlier).2

/-! ## One unit -/

theorem fix?_eq_error (h : us.fix? l = .error f) : f = .overflow := by
  have hneg := map_eq_error_iff.1 h
  unfold SignedWord.neg SignedWord.check at hneg
  split at hneg
  · cases hneg
  · exact (Except.error.inj hneg).symm

/-- A unit is passed over if its negation is fixed, and else it is among the units. -/
theorem fix?_eq_ok {fixed? : Option FixedUnits} (h : us.fix? l = .ok fixed?) :
    fixed? = if -l ∈ us then none else if l ∈ us then some us else some (l :: us) := by
  unfold fix? SignedWord.neg at h
  cases hneg : SignedWord.check (-l) with
  | error f =>
    rw [hneg] at h
    cases h
  | ok opposite =>
    obtain ⟨rfl, -⟩ := SignedWord.check_eq_ok_iff.1 hneg
    rw [hneg] at h
    simpa [Except.map, List.contains_iff_mem] using (Except.ok.inj h).symm

theorem mem_of_fix?_eq_none (h : us.fix? l = .ok none) : -l ∈ us := by
  by_contra hnot
  have heq := fix?_eq_ok h
  rw [if_neg hnot] at heq
  split at heq <;> cases heq

theorem not_mem_of_fix?_eq_some (h : us.fix? l = .ok (some us')) : -l ∉ us := by
  intro hmem
  have heq := fix?_eq_ok h
  rw [if_pos hmem] at heq
  cases heq

/-! ## Many units -/

theorem fixAll_cons (us : FixedUnits) (met : Bool) (hl : c.literals.head? = some l)
    (cs : List Clause) : us.fixAll met (c :: cs) =
      match us.fix? l with
      | .error f => (.error f, us)
      | .ok none => fixAll us true cs
      | .ok (some us) => fixAll us met cs := by
  cases hc : c.literals with
  | nil =>
    rw [hc] at hl
    cases hl
  | cons l' rest =>
    rw [hc] at hl
    obtain rfl := Option.some.inj hl
    rcases hfix : us.fix? l' with f | _ | us' <;> simp only [fixAll, hc, hfix]

/-- Fixing units of clauses that have a literal fails on the smallest word only. -/
theorem fixAll_eq_error (hcs : ∀ c ∈ cs, c.literals ≠ [])
    (h : (us.fixAll met cs).1 = .error f) : f = .overflow := by
  fun_induction us.fixAll met cs with
  | case1 => cases h
  | case2 us met c cs hc => exact absurd hc (hcs c List.mem_cons_self)
  | case3 us met c cs l rest hc f' hf =>
    obtain rfl := Except.error.inj h
    exact fix?_eq_error hf
  | case4 us met c cs l rest hc hf ih => exact ih (fun c' hc' => hcs c' (List.mem_cons_of_mem c hc')) h
  | case5 us met c cs l rest hc us' hf ih =>
    exact ih (fun c' hc' => hcs c' (List.mem_cons_of_mem c hc')) h

theorem not_refutes_nil : ¬ us.Refutes [] := by
  rintro ⟨earlier, c, later, l, heq, -⟩
  simp at heq

theorem refutes_of_mem (hl : c.literals.head? = some l) (hmem : -l ∈ us) (cs : List Clause) :
    us.Refutes (c :: cs) := ⟨[], c, cs, l, rfl, hl, hmem⟩

theorem mem_of_refutes_singleton (hl : c.literals.head? = some l) (h : us.Refutes [c]) :
    -l ∈ us := by
  obtain ⟨earlier, d, later, m, heq, hm, hmem⟩ := h
  cases earlier with
  | nil =>
    obtain ⟨rfl, -⟩ := List.cons.inj heq
    obtain rfl := Option.some.inj (hl.symm.trans hm)
    exact hmem
  | cons d' earlier =>
    have hlen := congrArg List.length heq
    simp at hlen

/-- After a unit has been fixed the question is about the rest. -/
theorem refutes_cons_iff (hl : c.literals.head? = some l) (hfix : us.fix? l = .ok (some us')) :
    us.Refutes (c :: cs) ↔ us'.Refutes cs := by
  have hsnd (earlier : List Clause) :
      (us.fixAll false (c :: earlier)).2 = (us'.fixAll false earlier).2 := by
    rw [fixAll_cons us false hl, hfix]
  constructor
  · rintro ⟨earlier, d, later, m, heq, hm, hmem⟩
    cases earlier with
    | nil =>
      obtain ⟨rfl, rfl⟩ := List.cons.inj heq
      obtain rfl := Option.some.inj (hl.symm.trans hm)
      exact absurd hmem (not_mem_of_fix?_eq_some hfix)
    | cons d' earlier =>
      obtain ⟨rfl, rfl⟩ := List.cons.inj heq
      rw [hsnd] at hmem
      exact ⟨earlier, d, later, m, rfl, hm, hmem⟩
  · rintro ⟨earlier, d, later, m, rfl, hm, hmem⟩
    refine ⟨c :: earlier, d, later, m, rfl, hm, ?_⟩
    rwa [hsnd]

/-- The answer tells whether a unit has been passed over, now or before. -/
theorem fixAll_eq_ok (h : (us.fixAll met cs).1 = .ok answer) :
    answer = true ↔ met = true ∨ us.Refutes cs := by
  fun_induction us.fixAll met cs with
  | case1 us met =>
    obtain rfl := Except.ok.inj h
    simp [not_refutes_nil]
  | case2 | case3 => cases h
  | case4 us met c cs l rest hc hf ih =>
    have hl : c.literals.head? = some l := by rw [hc]; rfl
    simp [ih h, refutes_of_mem hl (mem_of_fix?_eq_none hf)]
  | case5 us met c cs l rest hc us' hf ih =>
    have hl : c.literals.head? = some l := by rw [hc]; rfl
    rw [ih h, refutes_cons_iff hl hf]

/-! ## The units that are fixed -/

/-- No unit is there along with its negation. -/
def Consistent (us : FixedUnits) : Prop := ∀ l ∈ us, -l ∉ us

theorem subset_of_fix? (h : us.fix? l = .ok (some us')) : us ⊆ us' := by
  have heq := fix?_eq_ok h
  rw [if_neg (not_mem_of_fix?_eq_some h)] at heq
  split at heq
  · rw [Option.some.inj heq]
    exact List.Subset.refl us
  · rw [Option.some.inj heq]
    exact List.subset_cons_self l us

theorem mem_of_mem_fix? (h : us.fix? l = .ok (some us')) {k : Literal} (hk : k ∈ us') :
    k = l ∨ k ∈ us := by
  have heq := fix?_eq_ok h
  rw [if_neg (not_mem_of_fix?_eq_some h)] at heq
  split at heq
  · rw [Option.some.inj heq] at hk
    exact .inr hk
  · rw [Option.some.inj heq] at hk
    exact List.mem_cons.1 hk

/-- No unit is lost. -/
theorem subset_fixAll (us : FixedUnits) (met : Bool) (cs : List Clause) :
    us ⊆ (us.fixAll met cs).2 := by
  fun_induction us.fixAll met cs with
  | case1 | case2 | case3 => exact List.Subset.refl _
  | case4 us met c cs l rest hc hf ih => exact ih
  | case5 us met c cs l rest hc us' hf ih => exact List.Subset.trans (subset_of_fix? hf) ih

/-- No unit comes from nowhere. -/
theorem mem_of_mem_fixAll (h : l ∈ (us.fixAll met cs).2) :
    l ∈ us ∨ ∃ c ∈ cs, l ∈ c.literals := by
  fun_induction us.fixAll met cs with
  | case1 | case2 | case3 => exact .inl h
  | case4 us met c cs k rest hc hf ih =>
    refine (ih h).imp_right fun ⟨c', hc', hl⟩ => ?_
    exact ⟨c', List.mem_cons_of_mem c hc', hl⟩
  | case5 us met c cs k rest hc us' hf ih =>
    rcases ih h with hmem | ⟨c', hc', hl⟩
    · rcases mem_of_mem_fix? hf hmem with rfl | hmem
      · exact .inr ⟨c, List.mem_cons_self, by rw [hc]; exact List.mem_cons_self⟩
      · exact .inl hmem
    · exact .inr ⟨c', List.mem_cons_of_mem c hc', hl⟩

theorem Consistent.fix? (h : us.Consistent) (hl : l ≠ 0) (hfix : us.fix? l = .ok (some us')) :
    us'.Consistent := by
  intro k hk hneg
  have hnot := not_mem_of_fix?_eq_some hfix
  rcases mem_of_mem_fix? hfix hk with rfl | hk
  · rcases mem_of_mem_fix? hfix hneg with heq | hneg
    · exact hl (by grind)
    · exact hnot hneg
  · rcases mem_of_mem_fix? hfix hneg with rfl | hneg
    · rw [Int.neg_neg] at hnot
      exact hnot hk
    · exact h k hk hneg

/-- Fixing units keeps them consistent, whatever the units and even if it fails. -/
theorem Consistent.fixAll (h : us.Consistent) (met : Bool) (cs : List Clause) :
    (us.fixAll met cs).2.Consistent := by
  fun_induction us.fixAll met cs with
  | case1 | case2 | case3 => exact h
  | case4 us met c cs l rest hc hf ih => exact ih h
  | case5 us met c cs l rest hc us' hf ih =>
    exact ih (h.fix? (c.ne_zero l (by rw [hc]; exact List.mem_cons_self)) hf)

/-! ## Safe units -/

/-- A unit that has a negation can be fixed. -/
theorem fix?_of_safe (us : FixedUnits) (hmin : SignedWord.min < l) (hmax : l ≤ SignedWord.max) :
    us.fix? l = .ok (if -l ∈ us then none else if l ∈ us then some us else some (l :: us)) := by
  cases hfix : us.fix? l with
  | error f =>
    unfold FixedUnits.fix? at hfix
    rw [SignedWord.neg_eq_ok hmin hmax] at hfix
    cases hfix
  | ok fixed? => rw [fix?_eq_ok hfix]

/-- A unit whose negation is fixed is passed over. -/
theorem fixAll_cons_of_mem (hl : c.literals = [l]) (hsafe : c.IsSafeUnit) (hmem : -l ∈ us) :
    us.fixAll met (c :: cs) = us.fixAll true cs := by
  obtain ⟨k, hk, hmin, hmax⟩ := hsafe
  obtain rfl : l = k := by simpa [hl] using hk
  rw [fixAll_cons us met (by rw [hl]; rfl), fix?_of_safe us hmin hmax, if_pos hmem]

/-- Any other unit is fixed. -/
theorem fixAll_cons_of_notMem (hl : c.literals = [l]) (hsafe : c.IsSafeUnit) (hmem : -l ∉ us) :
    us.fixAll met (c :: cs) = (if l ∈ us then us else l :: us).fixAll met cs := by
  obtain ⟨k, hk, hmin, hmax⟩ := hsafe
  obtain rfl : l = k := by simpa [hl] using hk
  rw [fixAll_cons us met (by rw [hl]; rfl), fix?_of_safe us hmin hmax, if_neg hmem]
  by_cases hl' : l ∈ us
  · rw [if_pos hl', if_pos hl']
  · rw [if_neg hl', if_neg hl']

/-- Nothing keeps safe units from being fixed. -/
theorem exists_fixAll_eq_ok (us : FixedUnits) (met : Bool) (hcs : ∀ c ∈ cs, c.IsSafeUnit) :
    ∃ answer, (us.fixAll met cs).1 = .ok answer := by
  induction cs generalizing us met with
  | nil => exact ⟨met, rfl⟩
  | cons c cs ih =>
    obtain ⟨hc, hcs⟩ := List.forall_mem_cons.1 hcs
    obtain ⟨l, hl, -⟩ := id hc
    by_cases hmem : -l ∈ us
    · rw [fixAll_cons_of_mem hl hc hmem]
      exact ih us true hcs
    · rw [fixAll_cons_of_notMem hl hc hmem]
      exact ih _ met hcs

/-- The units that are fixed do not depend on what has been met before. -/
theorem snd_fixAll_eq (us : FixedUnits) (met met' : Bool) (cs : List Clause) :
    (us.fixAll met cs).2 = (us.fixAll met' cs).2 := by
  fun_induction us.fixAll met cs generalizing met' with
  | case1 => rfl
  | case2 us met c cs hc => simp only [fixAll, hc]
  | case3 us met c cs l rest hc f hf => simp only [fixAll, hc, hf]
  | case4 us met c cs l rest hc hf ih => simp only [fixAll, hc, hf]
  | case5 us met c cs l rest hc us' hf ih => simpa only [fixAll, hc, hf] using ih met'

theorem snd_fixAll_append (hcs : ∀ c ∈ cs, c.IsSafeUnit) (ds : List Clause) :
    (us.fixAll met (cs ++ ds)).2 = ((us.fixAll met cs).2.fixAll met ds).2 := by
  induction cs generalizing us met with
  | nil => rfl
  | cons c cs ih =>
    obtain ⟨hc, hcs⟩ := List.forall_mem_cons.1 hcs
    obtain ⟨l, hl, -⟩ := id hc
    rw [List.cons_append]
    by_cases hmem : -l ∈ us
    · rw [fixAll_cons_of_mem hl hc hmem, fixAll_cons_of_mem hl hc hmem, ih hcs]
      exact snd_fixAll_eq _ true met ds
    · rw [fixAll_cons_of_notMem hl hc hmem, fixAll_cons_of_notMem hl hc hmem]
      exact ih hcs

/-- A unit that contradicts those before it makes no difference. -/
theorem snd_fixAll_of_mem {earlier later : List Clause} (hearlier : ∀ d ∈ earlier, d.IsSafeUnit)
    (hc : c.IsSafeUnit) (hl : c.literals = [l]) (hmem : -l ∈ (us.fixAll met earlier).2) :
    (us.fixAll met (earlier ++ c :: later)).2 = (us.fixAll met (earlier ++ later)).2 := by
  rw [snd_fixAll_append hearlier, fixAll_cons_of_mem hl hc hmem, snd_fixAll_append hearlier]
  exact snd_fixAll_eq _ true met later

/-- Of every variable that is not fixed yet the first literal is. -/
theorem mem_fixAll_iff (hcs : ∀ c ∈ cs, c.IsSafeUnit) :
    l ∈ (us.fixAll met cs).2 ↔ l ∈ us ∨
      -l ∉ us ∧ (cs.flatMap (·.literals)).find? (fun k => k.natAbs = l.natAbs) = some l := by
  induction cs generalizing us met with
  | nil => simp [fixAll]
  | cons c cs ih =>
    obtain ⟨hc, hcs⟩ := List.forall_mem_cons.1 hcs
    obtain ⟨k, hk, -⟩ := id hc
    have hne : k ≠ 0 := c.ne_zero k (by simp [hk])
    rw [List.flatMap_cons, hk, List.singleton_append, List.find?_cons]
    by_cases hmem : -k ∈ us
    · -- `k` is passed over, and so the variable of `-k` is fixed already
      rw [fixAll_cons_of_mem hk hc hmem, ih hcs]
      by_cases hvar : k.natAbs = l.natAbs
      · rcases Int.natAbs_eq_natAbs_iff.1 hvar with rfl | rfl
        · simp [hmem]
        · rw [Int.neg_neg] at hmem
          simp [hmem]
      · simp [hvar]
    · rw [fixAll_cons_of_notMem hk hc hmem, ih hcs]
      have hfixed (m : Literal) : m ∈ (if k ∈ us then us else k :: us) ↔ m = k ∨ m ∈ us := by
        split <;> grind
      rw [hfixed, hfixed]
      by_cases hvar : k.natAbs = l.natAbs
      · rcases Int.natAbs_eq_natAbs_iff.1 hvar with rfl | rfl
        · simp [hmem]
        · rw [Int.neg_neg] at hmem
          grind
      · grind

end FixedUnits

end ClauseExchange
