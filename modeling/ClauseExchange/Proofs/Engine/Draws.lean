import Mathlib.Algebra.Order.Group.Int
import ClauseExchange.Engine.Simulated
import ClauseExchange.Proofs.Failing

/-!
# What a simulated engine draws

Whatever sampler an engine draws from, its random choices keep to their ranges. A
conflict can go wrong in two ways only: a counter overflows, or the probability of learning is none.

* `Draw.Yields` is the kind of statement that is made about a random computation, with one rule for
  each way to build one.
* `Simulation.Teaches` says what a conflict can teach.
* `Simulated.yields_drawConflict` is about a whole conflict, and `Simulated.search_cases` about the
  engine that has it.
-/

namespace ClauseExchange

/-! ## Random computations -/

/-- On every stream a random computation ends with a result that has a property, or with a fault
that has another. -/
def Draw.Yields {ρ α : Type} (x : Draw ρ α) (P : α → Prop) (F : Fault → Prop) : Prop :=
  ∀ source : ρ, (∀ a, (x.run.run source).1 = .ok a → P a) ∧
    ∀ f, (x.run.run source).1 = .error f → F f

namespace Draw

variable {ρ α β : Type}

theorem run_bind (x : Draw ρ α) (f : α → Draw ρ β) (source : ρ) :
    (x >>= f).run.run source =
      match x.run.run source with
      | (.ok a, source) => (f a).run.run source
      | (.error e, source) => (.error e, source) := by
  rw [ExceptT.run_bind]
  show (x.run >>= _).run source = _
  rw [StateT.run_bind]
  rcases x.run.run source with ⟨e | a, source'⟩ <;> rfl

/-- A computation that succeeds has gone through both of its parts. -/
theorem exists_of_run_bind {x : Draw ρ α} {f : α → Draw ρ β} {source source' : ρ} {b : β}
    (h : (x >>= f).run.run source = (.ok b, source')) :
    ∃ a between, x.run.run source = (.ok a, between) ∧
      (f a).run.run between = (.ok b, source') := by
  rw [run_bind] at h
  rcases hx : x.run.run source with ⟨e | a, between⟩
  · rw [hx] at h
    cases h
  · rw [hx] at h
    exact ⟨a, between, rfl, h⟩

namespace Yields

variable {P P' : α → Prop} {Q : β → Prop} {F F' : Fault → Prop} {x : Draw ρ α}

theorem of_run (h : Draw.Yields x P F) {source source' : ρ} {a : α}
    (hrun : x.run.run source = (.ok a, source')) : P a := (h source).1 a (by rw [hrun])

theorem mono (h : Draw.Yields x P F) (hP : ∀ a, P a → P' a) (hF : ∀ f, F f → F' f) :
    Draw.Yields x P' F' :=
  fun source => ⟨fun a ha => hP a ((h source).1 a ha), fun f hf => hF f ((h source).2 f hf)⟩

theorem pure {a : α} (h : P a) : Draw.Yields (pure a : Draw ρ α) P F := by
  intro source
  constructor
  · intro a' ha'
    obtain rfl := Except.ok.inj ha'
    exact h
  · intro f hf
    cases hf

theorem bind {f : α → Draw ρ β} (hx : Draw.Yields x P F)
    (hf : ∀ a, P a → Draw.Yields (f a) Q F) : Draw.Yields (x >>= f) Q F := by
  intro source
  obtain ⟨hok, herror⟩ := hx source
  rw [run_bind]
  rcases hrun : x.run.run source with ⟨e | a, source'⟩
  · rw [hrun] at herror
    constructor
    · intro b hb
      cases hb
    · intro e' he'
      obtain rfl := Except.error.inj he'
      exact herror e rfl
  · rw [hrun] at hok
    exact hf a (hok a rfl) source'

theorem ofExcept {r : Except Fault α} (hP : ∀ a, r = .ok a → P a) (hF : ∀ f, r = .error f → F f) :
    Draw.Yields (MonadExcept.ofExcept r : Draw ρ α) P F := by
  intro source
  cases r with
  | ok a => exact pure (hP a rfl) source
  | error f =>
    constructor
    · intro a ha
      cases ha
    · intro f' hf'
      obtain rfl := Except.error.inj hf'
      exact hF f rfl

end Yields

end Draw

namespace Sample

variable {ρ : Type} [Sampler ρ] {F : Fault → Prop}

theorem yields_range (width : Width) {low high : Nat} (h : low ≤ high) :
    Draw.Yields (ρ := ρ) (range width low high) (fun n => low ≤ n ∧ n ≤ high) F := by
  intro source
  obtain ⟨n, source', hrun, hlow, hhigh⟩ := range_mem width low high h source
  rw [hrun]
  constructor
  · intro n' hn'
    obtain rfl := Except.ok.inj hn'
    exact ⟨hlow, hhigh⟩
  · intro f hf
    cases hf

theorem yields_chance (p : Float) : Draw.Yields (ρ := ρ) (chance p) (fun _ => True)
    fun f => f = .notAProbability ∧ p.isNaN = true := by
  intro source
  refine ⟨fun _ _ => trivial, fun f hf => ?_⟩
  unfold chance at hf
  simp only [ExceptT.run_mk, StateT.run] at hf
  split at hf
  · exact ⟨(Except.error.inj hf).symm, ‹_›⟩
  · cases hf

end Sample

/-! ## Literals and clauses -/

namespace Literal

variable {l : Literal} {ls : List Literal}

/-- The literals of the variables from `1` to `numVars`. -/
def IsOver (numVars : Nat) (l : Literal) : Prop := l ≠ 0 ∧ l.natAbs ≤ numVars

/-- If the variables are signed words, so are their literals, and none is the smallest word. -/
theorem IsOver.word {numVars : Nat} (h : l.IsOver numVars)
    (hvars : numVars ≤ SignedWord.max.toNat) : SignedWord.min < l ∧ l ≤ SignedWord.max :=
  SignedWord.of_natAbs_le (h.2.trans hvars)

theorem perm_place (l : Literal) (ls : List Literal) : (place l ls).Perm (l :: ls) := by
  fun_induction place l ls with
  | case1 => exact .refl _
  | case2 m rest h => exact .refl _
  | case3 m rest h ih => exact (ih.cons m).trans (.swap l m rest)

/-- Sorting only moves literals. -/
theorem perm_sort (ls : List Literal) : (sort ls).Perm ls := by
  induction ls with
  | nil => exact .refl _
  | cons l ls ih => exact (perm_place l _).trans (ih.cons l)

theorem thinAfter_sublist (last : Literal) (ls : List Literal) : (thinAfter last ls).Sublist ls := by
  fun_induction thinAfter last ls with
  | case1 => exact .slnil
  | case2 last l rest h ih => exact ih.cons l
  | case3 last l rest h ih => exact ih.cons_cons l

theorem thin_sublist (ls : List Literal) : (thin ls).Sublist ls := by
  cases ls with
  | nil => exact .slnil
  | cons l rest => exact (thinAfter_sublist l rest).cons_cons l

/-- No literal comes from nowhere. -/
theorem mem_of_mem_normalize (h : l ∈ normalize ls) : l ∈ ls :=
  (perm_sort ls).mem_iff.1 ((thin_sublist _).subset h)

end Literal

/-- Every range from which a simulated engine draws has a value, and its variables have literals. -/
structure Simulation.HasRanges (s : Simulation) : Prop where
  one_le_numVars : 1 ≤ s.numVars
  numVars_le : s.numVars ≤ SignedWord.max.toNat
  stepWork : s.minStepWork ≤ s.maxStepWork

/-- What a conflict can teach: the ordered clause of some literals, and a quality. -/
structure Simulation.Teaches (s : Simulation) (learnt : Learnt) : Prop where
  drawn : ∃ ls : List Literal, 1 ≤ ls.length ∧ ls.length ≤ s.longestClause ∧
    (∀ l ∈ ls, l.IsOver s.numVars) ∧ learnt.clause.literals = Literal.normalize ls
  one_le_quality : 1 ≤ learnt.quality
  quality_le : learnt.quality ≤ s.worstQuality

/-- A clause that has been learnt and is still to be fixed or to be exported. -/
def SimulationControl.learnt? : SimulationControl → Option Learnt
  | .spending _ learnt? => learnt?
  | .exporting learnt => some learnt
  | _ => none

namespace Simulated

open Draw

variable {ρ : Type} [Sampler ρ] {F : Fault → Prop} {numVars : Nat}

theorem neg_eq_ok {numVars : Nat} (hvars : numVars ≤ SignedWord.max.toNat) {l : Literal}
    (hl : l.IsOver numVars) : SignedWord.neg l = .ok (-l) := by
  obtain ⟨hmin, hmax⟩ := hl.word hvars
  exact SignedWord.neg_eq_ok hmin hmax

theorem yields_drawLiteral (hone : 1 ≤ numVars) (hvars : numVars ≤ SignedWord.max.toNat) :
    Draw.Yields (ρ := ρ) (drawLiteral numVars) (·.IsOver numVars) F := by
  unfold drawLiteral
  refine .bind (Sample.yields_range .single hone) fun v hv => ?_
  refine .bind ((Sample.yields_chance 0.5).mono (fun _ => id) fun f hf => ?_) fun positive _ => ?_
  · exact absurd hf.2 (by decide)
  have hword : Int.bmod v Word.halfBound = v := by
    simp only [SignedWord.max, Word.halfBound] at hvars ⊢
    exact Int.bmod_eq_of_le (by omega) (by omega)
  have hpositive : Literal.IsOver numVars (v : Int) :=
    ⟨Int.natCast_ne_zero.2 (by omega), by simpa using hv.2⟩
  have hnegative : Literal.IsOver numVars (-v : Int) :=
    ⟨Int.neg_ne_zero.2 hpositive.1, by simpa using hv.2⟩
  dsimp only
  rw [hword, neg_eq_ok hvars hpositive]
  split
  · exact .pure hpositive
  · exact .pure hnegative

theorem yields_drawLiterals (hone : 1 ≤ numVars) (hvars : numVars ≤ SignedWord.max.toNat) (n : Nat) :
    Draw.Yields (ρ := ρ) (drawLiterals numVars n)
      (fun ls => ls.length = n ∧ ∀ l ∈ ls, l.IsOver numVars) F := by
  induction n with
  | zero => exact .pure ⟨rfl, by simp⟩
  | succ n ih =>
    unfold drawLiterals
    refine .bind (yields_drawLiteral hone hvars) fun l hl => .bind ih fun ls hls => .pure ⟨?_, ?_⟩
    · simpa using hls.1
    · exact List.forall_mem_cons.2 ⟨hl, hls.2⟩

/-- Literals over variables that are signed words have an ordered clause. -/
theorem clauseOf_eq_ok (hvars : numVars ≤ SignedWord.max.toNat) {ls : List Literal}
    (hls : ∀ l ∈ ls, l.IsOver numVars) :
    ∃ c, clauseOf ls = .ok c ∧ c.literals = Literal.normalize ls := by
  have hne : ∀ l ∈ Literal.normalize ls, l ≠ 0 :=
    fun l hl => (hls l (Literal.mem_of_mem_normalize hl)).1
  have hmin : SignedWord.min ∉ ls := by
    intro hmem
    have hle := (hls _ hmem).2
    simp only [SignedWord.max, SignedWord.min] at hvars hle
    omega
  refine ⟨⟨Literal.normalize ls, hne⟩, ?_, rfl⟩
  unfold clauseOf Clause.ofLiterals
  rw [if_neg (fun h => hmin h.2), dif_pos hne]

variable {s : Simulation}

/-- The probability of learning is none only if it was given as none. -/
theorem isNaN_probability (h : s.probability.isNaN = true) : s.learnProbability.isNaN = true := by
  unfold Simulation.probability at h
  dsimp only at h
  split at h
  · exact absurd h (by decide)
  · split at h
    · exact absurd h (by decide)
    · exact h

theorem yields_drawLearnt (hone : 1 ≤ s.numVars) (hvars : s.numVars ≤ SignedWord.max.toNat) :
    Draw.Yields (ρ := ρ) (drawLearnt s) (fun learnt? => ∀ learnt ∈ learnt?, s.Teaches learnt)
      fun f => f = .notAProbability ∧ s.learnProbability.isNaN = true := by
  unfold drawLearnt
  refine .bind ((Sample.yields_chance _).mono (fun _ => id) fun f hf => ?_) fun teaches _ => ?_
  · exact ⟨hf.1, isNaN_probability hf.2⟩
  split
  · refine .bind (Sample.yields_range _ (Nat.le_max_right _ _)) fun n hn => ?_
    refine .bind (yields_drawLiterals hone hvars n) fun ls hls => ?_
    refine .bind (Sample.yields_range .single (Nat.le_max_right _ _)) fun quality hquality => ?_
    obtain ⟨c, hc, hliterals⟩ := clauseOf_eq_ok hvars hls.2
    rw [hc]
    refine .bind (.pure (P := (· = c)) rfl) fun c' hc' => .pure fun learnt hlearnt => ?_
    obtain rfl := Option.some.inj hlearnt
    subst hc'
    exact ⟨⟨ls, hls.1 ▸ hn.1, hls.1 ▸ hn.2, hls.2, hliterals⟩, hquality.1, hquality.2⟩
  · exact .pure (by simp)

/-! ## Conflicts -/

theorem countConflict_eq_ok {c c' : EngineStatistics} {work : Nat}
    (h : countConflict c work = .ok c') : c'.conflicts = c.conflicts + 1 := by
  unfold countConflict at h
  obtain ⟨conflicts, hconflicts, h⟩ := exists_of_bind_eq_ok h
  obtain ⟨decisions, -, h⟩ := exists_of_bind_eq_ok h
  obtain ⟨propagations, -, h⟩ := exists_of_bind_eq_ok h
  obtain rfl := Except.ok.inj h
  exact (Word.add_eq_ok_iff.1 hconflicts).1

theorem countConflict_eq_error {c : EngineStatistics} {work : Nat} {f : Fault}
    (h : countConflict c work = .error f) : f = .overflow := by
  unfold countConflict at h
  rcases bind_eq_error h with h | ⟨conflicts, -, h⟩
  · exact (Word.add_eq_error_iff.1 h).1
  · rcases bind_eq_error h with h | ⟨decisions, -, h⟩
    · exact (Word.add_eq_error_iff.1 h).1
    · rcases bind_eq_error h with h | ⟨propagations, -, h⟩
      · exact (Word.add_eq_error_iff.1 h).1
      · cases h

@[simp] theorem simulation_start (s : Simulation) (source : ρ) : (start s source).simulation = s := rfl

/-- Every conflict takes the work that is set for it, and counts it. -/
theorem yields_drawConflict (h : s.HasRanges) (c : EngineStatistics) :
    Draw.Yields (ρ := ρ) (drawConflict s c)
      (fun (work, c', learnt?) => s.minStepWork ≤ work ∧ work ≤ s.maxStepWork ∧
        countConflict c work = .ok c' ∧ ∀ learnt ∈ learnt?, s.Teaches learnt)
      fun f => (f = .overflow ∧ ∃ work, s.minStepWork ≤ work ∧ work ≤ s.maxStepWork ∧
          countConflict c work = .error f) ∨
        f = .notAProbability ∧ s.learnProbability.isNaN = true := by
  unfold drawConflict
  refine .bind (Sample.yields_range .double h.stepWork) fun work hwork => ?_
  refine .bind (.ofExcept (P := fun c' => countConflict c work = .ok c') (fun c' hc' => hc')
    fun f hf => .inl ⟨countConflict_eq_error hf, work, hwork.1, hwork.2, hf⟩) fun c' hc' => ?_
  refine .bind ((yields_drawLearnt h.one_le_numVars h.numVars_le).mono (fun _ => id)
    fun f hf => .inr hf) fun learnt? hlearnt => ?_
  exact .pure ⟨hwork.1, hwork.2, hc', hlearnt⟩

/-- First the work is drawn, and in the end what is learnt. -/
theorem exists_of_run_drawConflict {c c' : EngineStatistics} {source source' : ρ} {work : Nat}
    {learnt? : Option Learnt}
    (h : (drawConflict s c).run.run source = (.ok (work, c', learnt?), source')) :
    ∃ between,
      (Sample.range .double s.minStepWork s.maxStepWork).run.run source = (.ok work, between) ∧
      countConflict c work = .ok c' ∧
      (drawLearnt s).run.run between = (.ok learnt?, source') := by
  unfold drawConflict at h
  obtain ⟨work, between, hwork, h⟩ := exists_of_run_bind h
  obtain ⟨counters, s₂, hcounters, h⟩ := exists_of_run_bind h
  obtain ⟨learnt?, s₃, hlearnt, h⟩ := exists_of_run_bind h
  cases h
  cases hcount : countConflict c work with
  | error f =>
    rw [hcount] at hcounters
    cases hcounters
  | ok c'' =>
    rw [hcount] at hcounters
    cases hcounters
    exact ⟨between, hwork, rfl, hlearnt⟩

/-- Only the variables need a range for what a conflict teaches. -/
theorem teaches_of_search {e : Simulated ρ} (hone : 1 ≤ e.simulation.numVars)
    (hvars : e.simulation.numVars ≤ SignedWord.max.toNat) {learnt : Learnt}
    (h : e.search.control.learnt? = some learnt) : e.simulation.Teaches learnt := by
  unfold search at h
  rcases hrun : (drawConflict e.simulation e.counters).run.run e.source with
    ⟨f | ⟨work, counters, learnt?⟩, source⟩
  · rw [hrun] at h
    cases h
  · rw [hrun] at h
    obtain rfl : learnt? = some learnt := h
    obtain ⟨between, -, -, hlearnt⟩ := exists_of_run_drawConflict hrun
    exact (yields_drawLearnt hone hvars).of_run hlearnt learnt rfl

/-- An engine that searches fails, or it has a conflict whose work it then spends. -/
theorem search_cases {e : Simulated ρ} (h : e.simulation.HasRanges) :
    (∃ source f, e.search = { e with source, control := .failing f } ∧
      (f = .overflow ∨ f = .notAProbability ∧ e.simulation.learnProbability.isNaN = true)) ∨
    ∃ source work counters learnt?,
      e.search = { e with source, counters, control := .spending work learnt? } ∧
      e.simulation.minStepWork ≤ work ∧ work ≤ e.simulation.maxStepWork ∧
      counters.conflicts = e.counters.conflicts + 1 ∧
      ∀ learnt ∈ learnt?, e.simulation.Teaches learnt := by
  obtain ⟨hok, herror⟩ := yields_drawConflict h e.counters e.source
  unfold search
  rcases hrun : (drawConflict e.simulation e.counters).run.run e.source with
    ⟨f | ⟨work, counters, learnt?⟩, source⟩
  · rw [hrun] at herror
    exact .inl ⟨source, f, rfl, (herror f rfl).imp_left And.left⟩
  · rw [hrun] at hok
    obtain ⟨hleast, hmost, hcount, hlearnt⟩ := hok _ rfl
    exact .inr ⟨source, work, counters, learnt?, rfl, hleast, hmost, countConflict_eq_ok hcount,
      hlearnt⟩

end Simulated

end ClauseExchange
