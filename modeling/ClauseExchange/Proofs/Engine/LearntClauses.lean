import Mathlib.Algebra.Order.Group.Defs
import Mathlib.Data.List.Nodup
import ClauseExchange.Proofs.Engine.Draws

/-!
# Learnt clauses

The literals that are drawn for a clause come in any order, some of them several times and some
with their negations. The clause has one literal of every variable that was drawn, in the order of
the variables; of two opposite literals it has the negative one.

* `Literal.Sorted.eq_sort` says that literals can be sorted in one way only.
* `Literal.ordered_normalize` and `Literal.mem_normalize_iff` say what is left when all but the first
  literal of every variable have been dropped.
* `Simulated.DrawsClause` lists what is drawn in a conflict that teaches a clause.
* `Simulated.learnt_well_formed` is about a whole conflict.
-/

namespace ClauseExchange

namespace Literal

variable {k l m last : Literal} {ks ls : List Literal}

/-- Literals in the order of their variables, with at most one of each. -/
def Ordered (ls : List Literal) : Prop := ls.Pairwise fun l m => l.natAbs < m.natAbs

/-- In an ordered list the variable determines the literal. -/
theorem Ordered.eq_of_natAbs_eq (h : Ordered ls) (hl : l ∈ ls) (hm : m ∈ ls)
    (heq : l.natAbs = m.natAbs) : l = m :=
  List.inj_on_of_nodup_map (List.pairwise_map.2 (h.imp Nat.ne_of_lt)) hl hm heq

theorem Ordered.neg_notMem (h : Ordered ls) (hl : l ∈ ls) (hne : l ≠ 0) : -l ∉ ls := by
  intro hneg
  have heq := h.eq_of_natAbs_eq hneg hl (Int.natAbs_neg l)
  grind

section Order

variable {k l m : Int}

theorem precedes_iff : precedes l m = true ↔ l.natAbs < m.natAbs ∨ l.natAbs = m.natAbs ∧ l ≤ m := by
  simp [precedes]

theorem precedes_of_not (h : ¬ precedes l m = true) : precedes m l = true := by
  rw [precedes_iff] at h ⊢
  omega

theorem precedes_trans (h : precedes k l = true) (h' : precedes l m = true) :
    precedes k m = true := by
  rw [precedes_iff] at h h' ⊢
  omega

theorem eq_of_precedes (h : precedes l m = true) (h' : precedes m l = true) : l = m := by
  rw [precedes_iff] at h h'
  omega

end Order

/-- Literals in the order in which they stand in a clause, those of one variable next to each
other. -/
def Sorted (ls : List Literal) : Prop := ls.Pairwise fun l m => l.precedes m = true

theorem Sorted.place (h : Sorted ls) (l : Literal) : Sorted (place l ls) := by
  fun_induction Literal.place l ls with
  | case1 => exact List.pairwise_singleton _ _
  | case2 m rest hle =>
    refine List.pairwise_cons.2 ⟨fun k hk => ?_, h⟩
    rcases List.mem_cons.1 hk with rfl | hk
    · exact hle
    · exact precedes_trans hle ((List.pairwise_cons.1 h).1 k hk)
  | case3 m rest hle ih =>
    obtain ⟨hm, hrest⟩ := List.pairwise_cons.1 h
    refine List.pairwise_cons.2 ⟨fun k hk => ?_, ih hrest⟩
    rcases List.mem_cons.1 ((perm_place l rest).mem_iff.1 hk) with rfl | hk
    · exact precedes_of_not hle
    · exact hm k hk

theorem sorted_sort (ls : List Literal) : Sorted (sort ls) := by
  induction ls with
  | nil => exact .nil
  | cons l ls ih => exact ih.place l

/-- There is one way to sort literals, so that it does not matter how it is done. -/
theorem Sorted.eq_sort (h : Sorted ks) (hperm : ks.Perm ls) : ks = sort ls :=
  (hperm.trans (perm_sort ls).symm).eq_of_pairwise (fun _ _ _ _ => eq_of_precedes) h (sorted_sort ls)

theorem sort_eq_mergeSort (ls : List Literal) : sort ls = ls.mergeSort precedes := by
  have htotal (l m : Literal) : (l.precedes m || m.precedes l) = true :=
    Bool.or_eq_true_iff.2 (or_iff_not_imp_left.2 precedes_of_not)
  have htrans (k l m : Literal) : k.precedes l = true → l.precedes m = true → k.precedes m = true :=
    precedes_trans
  have hsorted : Sorted (ls.mergeSort precedes) := List.pairwise_mergeSort htrans htotal ls
  exact (hsorted.eq_sort (List.mergeSort_perm ls _)).symm

/-- Where literals are sorted, one of every variable is left. -/
theorem Sorted.ordered_thinAfter (h : Sorted (last :: ls)) : Ordered (last :: thinAfter last ls) := by
  fun_induction thinAfter last ls with
  | case1 => exact List.pairwise_singleton _ _
  | case2 last l rest heq ih => exact ih (h.sublist ((List.sublist_cons_self l rest).cons_cons last))
  | case3 last l rest hne ih =>
    obtain ⟨hlast, hrest⟩ := List.pairwise_cons.1 h
    have hlt : last.natAbs < l.natAbs := by
      have hle := precedes_iff.1 (hlast l List.mem_cons_self)
      omega
    have hordered := ih hrest
    refine List.pairwise_cons.2 ⟨fun k hk => ?_, hordered⟩
    rcases List.mem_cons.1 hk with rfl | hk
    · exact hlt
    · exact hlt.trans ((List.pairwise_cons.1 hordered).1 k hk)

/-- Of every variable the first literal is left. -/
theorem Sorted.exists_mem_thinAfter (h : Sorted (last :: ls)) (hk : k ∈ last :: ls) :
    ∃ l ∈ last :: thinAfter last ls, l.natAbs = k.natAbs ∧ l ≤ k := by
  fun_induction thinAfter last ls with
  | case1 => exact ⟨k, hk, rfl, le_rfl⟩
  | case2 last l rest heq ih =>
    have hsub := (List.sublist_cons_self l rest).cons_cons last
    obtain ⟨hlast, -⟩ := List.pairwise_cons.1 h
    rcases List.mem_cons.1 hk with rfl | hk
    · exact ⟨k, List.mem_cons_self, rfl, le_rfl⟩
    · rcases List.mem_cons.1 hk with rfl | hk
      · rcases precedes_iff.1 (hlast k List.mem_cons_self) with hlt | ⟨-, hle⟩
        · exact absurd heq (Nat.ne_of_gt hlt)
        · exact ⟨last, List.mem_cons_self, heq.symm, hle⟩
      · exact ih (h.sublist hsub) (List.mem_cons_of_mem _ hk)
  | case3 last l rest hne ih =>
    rcases List.mem_cons.1 hk with rfl | hk
    · exact ⟨k, List.mem_cons_self, rfl, le_rfl⟩
    · obtain ⟨m, hm, hmk⟩ := ih (List.pairwise_cons.1 h).2 hk
      exact ⟨m, List.mem_cons_of_mem _ hm, hmk⟩

theorem Sorted.ordered_thin (h : Sorted ls) : Ordered (thin ls) := by
  cases ls with
  | nil => exact .nil
  | cons l rest => exact h.ordered_thinAfter

theorem Sorted.exists_mem_thin (h : Sorted ls) (hk : k ∈ ls) :
    ∃ l ∈ thin ls, l.natAbs = k.natAbs ∧ l ≤ k := by
  cases ls with
  | nil => cases hk
  | cons l rest => exact h.exists_mem_thinAfter hk

theorem ordered_normalize (ls : List Literal) : Ordered (normalize ls) := (sorted_sort ls).ordered_thin

theorem exists_mem_normalize (h : k ∈ ls) : ∃ l ∈ normalize ls, l.natAbs = k.natAbs ∧ l ≤ k :=
  (sorted_sort ls).exists_mem_thin ((perm_sort ls).mem_iff.2 h)
/-- All literals are kept but those whose negation is there and is the negative one. -/
theorem mem_normalize_iff (hls : ∀ l ∈ ls, l ≠ 0) :
    l ∈ normalize ls ↔ l ∈ ls ∧ (l < 0 ∨ -l ∉ ls) := by
  constructor
  · intro hl
    have hmem := mem_of_mem_normalize hl
    refine ⟨hmem, or_iff_not_imp_right.2 fun hneg => ?_⟩
    obtain ⟨k, hk, heq, hle⟩ := exists_mem_normalize (not_not.1 hneg)
    rw [Int.natAbs_neg] at heq
    obtain rfl := (ordered_normalize ls).eq_of_natAbs_eq hk hl heq
    exact (le_neg_self_iff.1 hle).lt_of_ne (hls k hmem)
  · rintro ⟨hl, hkept⟩
    obtain ⟨k, hk, heq, hle⟩ := exists_mem_normalize hl
    rcases Int.natAbs_eq_natAbs_iff.1 heq with rfl | rfl
    · exact hk
    · have hneg : l < 0 := hkept.resolve_right (not_not.2 (mem_of_mem_normalize hk))
      exact absurd hneg (neg_le_self_iff.1 hle).not_gt

theorem normalize_ne_nil (h : ls ≠ []) : normalize ls ≠ [] := by
  obtain ⟨k, hk⟩ := List.exists_mem_of_ne_nil ls h
  obtain ⟨l, hl, -⟩ := exists_mem_normalize hk
  exact List.ne_nil_of_mem hl

theorem length_normalize_le (ls : List Literal) : (normalize ls).length ≤ ls.length :=
  (thin_sublist _).length_le.trans (perm_sort ls).length_eq.le

end Literal

/-- What is true of a learnt clause and its quality, given the literals that were drawn for it. -/
structure Learnt.IsWellFormed (s : Simulation) (drawn : List Literal) (learnt : Learnt) : Prop where
  literals_ne_nil : learnt.clause.literals ≠ []
  length_le : learnt.clause.length ≤ max 1 s.maxClauseLength
  /-- Its literals are over the variables of the engine -/
  isOver : ∀ l ∈ learnt.clause.literals, l ≠ 0 ∧ 1 ≤ l.natAbs ∧ l.natAbs ≤ s.numVars
  /-- and in the order of these, so that no variable occurs twice -/
  ordered : Literal.Ordered learnt.clause.literals
  /-- and no literal with its negation. -/
  neg_notMem : ∀ l ∈ learnt.clause.literals, -l ∉ learnt.clause.literals
  /-- They are the literals that were drawn, but for positive ones whose negation was drawn too. -/
  mem_iff : ∀ l, l ∈ learnt.clause.literals ↔ l ∈ drawn ∧ (l < 0 ∨ -l ∉ drawn)
  /-- No variable is lost. -/
  exists_mem : ∀ l ∈ drawn, ∃ m ∈ learnt.clause.literals, m.natAbs = l.natAbs
  one_le_quality : 1 ≤ learnt.quality
  quality_le : learnt.quality ≤ max 1 s.maxQuality

namespace Learnt

variable {s : Simulation} {drawn : List Literal} {learnt : Learnt}

theorem isWellFormed (hnil : drawn ≠ []) (hlength : drawn.length ≤ s.longestClause)
    (hover : ∀ l ∈ drawn, l.IsOver s.numVars)
    (hclause : learnt.clause.literals = Literal.normalize drawn) (hone : 1 ≤ learnt.quality)
    (hquality : learnt.quality ≤ s.worstQuality) : learnt.IsWellFormed s drawn where
  literals_ne_nil := by
    rw [hclause]
    exact Literal.normalize_ne_nil hnil
  length_le := by
    rw [Clause.length, hclause, max_comm]
    exact (Literal.length_normalize_le drawn).trans hlength
  isOver l hl := by
    rw [hclause] at hl
    obtain ⟨hne, hle⟩ := hover l (Literal.mem_of_mem_normalize hl)
    exact ⟨hne, Int.natAbs_pos.2 hne, hle⟩
  ordered := by
    rw [hclause]
    exact Literal.ordered_normalize drawn
  neg_notMem l hl := by
    rw [hclause] at hl ⊢
    exact (Literal.ordered_normalize drawn).neg_notMem hl
      (hover l (Literal.mem_of_mem_normalize hl)).1
  mem_iff l := by
    rw [hclause]
    exact Literal.mem_normalize_iff fun l hl => (hover l hl).1
  exists_mem l hl := by
    rw [hclause]
    obtain ⟨m, hm, heq, -⟩ := Literal.exists_mem_normalize hl
    exact ⟨m, hm, heq⟩
  one_le_quality := hone
  quality_le := by
    rw [max_comm]
    exact hquality

end Learnt

namespace Simulated

open Draw

variable {ρ : Type} [Sampler ρ] {s : Simulation} {source source' : ρ} {learnt : Learnt}

/-- What is drawn for a learnt clause, from first to last: that there is one, how many literals it
gets, the literals, and its quality. -/
def DrawsClause (s : Simulation) (source source' : ρ) (drawn : List Literal) (quality : Nat) :
    Prop :=
  ∃ s₁ s₂ s₃, (Sample.chance s.probability).run.run source = (.ok true, s₁) ∧
    (Sample.range (if s.longestClause < Word.halfBound then .single else .double) 1
      s.longestClause).run.run s₁ = (.ok drawn.length, s₂) ∧
    (drawLiterals s.numVars drawn.length).run.run s₂ = (.ok drawn, s₃) ∧
    (Sample.range .single 1 s.worstQuality).run.run s₃ = (.ok quality, source')

/-- A learnt clause is that of the literals that were drawn for it. -/
theorem exists_drawn (h : s.HasRanges)
    (hrun : (drawLearnt s).run.run source = (.ok (some learnt), source')) :
    ∃ drawn, DrawsClause s source source' drawn learnt.quality ∧ learnt.IsWellFormed s drawn := by
  unfold drawLearnt at hrun
  obtain ⟨teaches, s₁, hchance, hrun⟩ := exists_of_run_bind hrun
  cases teaches with
  | false => cases hrun
  | true =>
    rw [if_pos rfl] at hrun
    obtain ⟨n, s₂, hlength, hrun⟩ := exists_of_run_bind hrun
    obtain ⟨drawn, s₃, hdrawn, hrun⟩ := exists_of_run_bind hrun
    obtain ⟨quality, s₄, hquality, hrun⟩ := exists_of_run_bind hrun
    obtain ⟨hone, hlongest⟩ := (Sample.yields_range (F := fun _ => True) _
      (Nat.le_max_right _ _)).of_run hlength
    obtain ⟨hn, hover⟩ := (yields_drawLiterals (F := fun _ => True) h.one_le_numVars h.numVars_le
      n).of_run hdrawn
    obtain ⟨hbest, hworst⟩ := (Sample.yields_range (F := fun _ => True) _
      (Nat.le_max_right _ _)).of_run hquality
    obtain ⟨clause, hclause, hliterals⟩ := clauseOf_eq_ok h.numVars_le hover
    rw [hclause] at hrun
    cases hrun
    rw [← hn] at hone hlongest hlength hdrawn
    exact ⟨drawn, ⟨s₁, s₂, s₃, hchance, hlength, hdrawn, hquality⟩,
      Learnt.isWellFormed (List.length_pos_iff.1 hone) hlongest hover hliterals hbest hworst⟩

/-- **Learnt clauses are well formed.** A conflict takes work within its bounds. It fails only on an
overflow of a counter or if the probability of learning is none; a clause that it teaches is that
of the literals drawn for it, one for each of their variables. -/
theorem learnt_well_formed (e : Simulated ρ) (h : e.simulation.HasRanges) :
    (∃ source f, e.search = { e with source, control := .failing f } ∧
      ((f = .overflow ∧ ∃ work, e.simulation.minStepWork ≤ work ∧ work ≤ e.simulation.maxStepWork ∧
          countConflict e.counters work = .error f) ∨
        f = .notAProbability ∧ e.simulation.learnProbability.isNaN = true)) ∨
    ∃ source work counters learnt?,
      e.search = { e with source, counters, control := .spending work learnt? } ∧
      e.simulation.minStepWork ≤ work ∧ work ≤ e.simulation.maxStepWork ∧
      countConflict e.counters work = .ok counters ∧
      ∀ learnt ∈ learnt?, ∃ between drawn,
        (Sample.range .double e.simulation.minStepWork e.simulation.maxStepWork).run.run e.source =
          (.ok work, between) ∧
        DrawsClause e.simulation between source drawn learnt.quality ∧
        learnt.IsWellFormed e.simulation drawn := by
  have hyields := yields_drawConflict (ρ := ρ) h e.counters
  unfold search
  rcases hrun : (drawConflict e.simulation e.counters).run.run e.source with
    ⟨f | ⟨work, counters, learnt?⟩, source⟩
  · exact .inl ⟨source, f, rfl, (hyields e.source).2 f (by rw [hrun])⟩
  · obtain ⟨hleast, hmost, hcount, -⟩ := hyields.of_run hrun
    refine .inr ⟨source, work, counters, learnt?, rfl, hleast, hmost, hcount, ?_⟩
    rintro learnt rfl
    obtain ⟨between, hwork, -, hlearnt⟩ := exists_of_run_drawConflict hrun
    obtain ⟨drawn, hdraws, hwell⟩ := exists_drawn h hlearnt
    exact ⟨between, drawn, hwork, hdraws, hwell⟩

/-- For this clause `2` has been drawn and then `-2`. -/
theorem learnt_well_formed_opposite : ∃ (e : Simulated ChaCha.Stream) (learnt : Learnt),
    e.simulation.HasRanges ∧ e.search.control = .spending 86 (some learnt) ∧
    learnt.clause.literals = [1, -2] ∧ learnt.quality = 3 ∧
    ∃ drawn, learnt.IsWellFormed e.simulation drawn := by
  let s : Simulation := { numVars := 2, maxClauseLength := 4, learnProbability := 1.0 }
  let e := start s (ChaCha.Stream.ofSeed 3)
  let learnt : Learnt := ⟨⟨[1, -2], by decide⟩, 3⟩
  have hranges : e.simulation.HasRanges := by
    rw [simulation_start]
    exact ⟨by decide, by decide, by decide⟩
  have hcontrol : e.search.control = .spending 86 (some learnt) := by decide +kernel
  refine ⟨e, learnt, hranges, hcontrol, rfl, rfl, ?_⟩
  rcases learnt_well_formed e hranges with
    ⟨source, f, heq, -⟩ | ⟨source, work, counters, learnt?, heq, -, -, -, hlearnt⟩
  · have hnot : SimulationControl.failing f = .spending 86 (some learnt) := by rw [← hcontrol, heq]
    cases hnot
  · have hspent : SimulationControl.spending work learnt? = .spending 86 (some learnt) := by
      rw [← hcontrol, heq]
    obtain ⟨rfl, rfl⟩ := SimulationControl.spending.inj hspent
    obtain ⟨between, drawn, -, -, hwell⟩ := hlearnt learnt rfl
    exact ⟨drawn, hwell⟩

end Simulated

end ClauseExchange
