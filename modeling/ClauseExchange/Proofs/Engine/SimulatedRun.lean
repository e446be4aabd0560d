import ClauseExchange.Proofs.Engine.Draws
import ClauseExchange.Proofs.Engine.FixedUnits
import ClauseExchange.Proofs.Exchange.Driven
import ClauseExchange.Proofs.Exchange.Winner
import ClauseExchange.Proofs.Coordinator.Reports
import ClauseExchange.Proofs.Portfolio.Moves

/-!
# The run of a simulated engine

A simulated engine is driven by whatever exchange it is in. It stops at the next look at its
conflicts once it has had enough of them, and until then every conflict takes a bounded number of
requests: a request for each step of its loop, and one for each period that its work may fill.

* `Simulated.Step` lists what a reply can do to the engine, and `Simulated.step_of_served` says that
  the list is complete.
* `Simulated.requestsLeft` is a measure that every reply lowers.
* `Simulated.Concludes` lists the reasons for which the engine ends.
* `Simulated.follows_script` puts together what is true of every run, and of every portfolio of such
  engines.
-/

namespace ClauseExchange

namespace Simulated

variable {ρ : Type} [Sampler ρ]

/-! ## One reply -/

/-- What a reply can do to a simulated engine and to the clock of its worker. -/
inductive Step (e : Simulated ρ) (c : Clock) : Simulated ρ → Clock → Prop
  | search (hcontrol : e.control = .searching) : Step e c e.search c
  | spend {work : Nat} (hcontrol : e.control = .spending work none) :
      Step e c { e with control := .looking } { c with work := Word.satAdd c.work work }
  | learn {work : Nat} {learnt : Learnt} (hcontrol : e.control = .spending work (some learnt)) :
      Step e c (e.learn learnt) { c with work := Word.satAdd c.work work }
  | offer {learnt : Learnt} (hcontrol : e.control = .exporting learnt) :
      Step e c { e with control := .looking } c
  | arrive (hcontrol : e.control = .looking) (hused : c.length ≤ c.work) :
      Step e c { e with control := .checking } c
  | proceed (hcontrol : e.control = .looking) : Step e c e.proceed c
  | pass (hcontrol : e.control = .checking) (hleft : c.work < c.length) :
      Step e c { e with control := .looking } c
  | enter {threshold length : Nat} (hcontrol : e.control = .checking) (hused : c.length ≤ c.work)
      (hlength : 1 ≤ length) :
      Step e c { e with threshold, control := .looking } ⟨c.work - c.length, length⟩
  | stop {advice : Advice} {c' : Clock} (hcontrol : e.control = .checking) :
      Step e c ((engine.advised e advice).resume (.answer false)) c'
  | urge (hcontrol : e.control = .asking) : Step e c { e with control := .applying } c
  | wait (hcontrol : e.control = .asking) : Step e c e.judge c
  | apply {batch : Batch} (hcontrol : e.control = .applying)
      (hok : (e.apply batch).1 = .ok .applied) : Step e c (e.apply batch).2.judge c
  | conflict {batch : Batch} (hcontrol : e.control = .applying)
      (hunits : ∀ u ∈ batch.units, u.isUnit = true) (hok : (e.apply batch).1 = .ok .conflict) :
      Step e c { (e.apply batch).2 with control := .concluding .unsatisfiable } c
  | spare (hcontrol : e.control = .applying) : Step e c e.judge c

variable {e e' : Simulated ρ} {c c' : Clock}

theorem advised_eq (e : Simulated ρ) (advice : Advice) :
    ∃ threshold, engine.advised e advice = { e with threshold } := by
  cases advice with
  | keep => exact ⟨e.threshold, rfl⟩
  | tighten => exact ⟨_, rfl⟩
  | relax =>
    show ∃ threshold, e.relax.2 = _
    unfold relax
    split
    · exact ⟨e.threshold, rfl⟩
    · exact ⟨_, rfl⟩

theorem resume_stop (hcontrol : e.control = .checking) (advice : Advice) :
    ∃ threshold, (engine.advised e advice).resume (.answer false) =
      { e with threshold, control := .concluding .unknown } := by
  obtain ⟨threshold, hadvised⟩ := e.advised_eq advice
  refine ⟨threshold, ?_⟩
  rw [hadvised]
  simp only [resume, hcontrol]

omit [Sampler ρ] in
theorem control_apply (e : Simulated ρ) (batch : Batch) : (e.apply batch).2.control = e.control := by
  unfold apply
  split <;> rfl

/-- Every reply of a worker does one of the things in the list. -/
theorem step_of_served (h : engine.Served e c e' c') : e.Step c e' c' := by
  have hrequest : engine.request e = e.request := rfl
  cases h with
  | observe hreq hview =>
    rename_i view
    show e.Step c (e.resume (.seen view)) c
    cases hcontrol : e.control with
    | searching =>
      simp only [resume, hcontrol]
      exact .search hcontrol
    | looking =>
      simp only [resume, hcontrol]
      split
      · rename_i hboundary
        exact .arrive hcontrol (of_decide_eq_true (hview.symm.trans hboundary))
      · exact .proceed hcontrol
    | _ => simp [hrequest, request, hcontrol] at hreq
  | work hreq =>
    rename_i units
    show e.Step c (e.resume .done) _
    cases hcontrol : e.control with
    | spending work learnt? =>
      obtain rfl : work = units := by simpa [hrequest, request, hcontrol] using hreq
      cases learnt? with
      | none =>
        simp only [resume, hcontrol]
        exact .spend hcontrol
      | some learnt =>
        simp only [resume, hcontrol]
        exact .learn hcontrol
    | _ => simp [hrequest, request, hcontrol] at hreq
  | offer hreq =>
    show e.Step c (e.resume .done) c
    cases hcontrol : e.control with
    | exporting learnt =>
      simp only [resume, hcontrol]
      exact .offer hcontrol
    | _ => simp [hrequest, request, hcontrol] at hreq
  | pass hreq hleft =>
    show e.Step c (e.resume (.answer true)) c
    cases hcontrol : e.control with
    | checking =>
      simp only [resume, hcontrol]
      exact .pass hcontrol hleft
    | _ => simp [hrequest, request, hcontrol] at hreq
  | enter hreq hused hlength =>
    rename_i advice length
    obtain ⟨threshold, hadvised⟩ := e.advised_eq advice
    rw [hadvised]
    show e.Step c (resume _ (.answer true)) _
    cases hcontrol : e.control with
    | checking =>
      simp only [resume]
      exact .enter hcontrol hused hlength
    | _ => simp [hrequest, request, hcontrol] at hreq
  | stop hreq =>
    cases hcontrol : e.control with
    | checking => exact .stop hcontrol
    | _ => simp [hrequest, request, hcontrol] at hreq
  | ask hreq =>
    rename_i yes
    show e.Step c (e.resume (.answer yes)) c
    cases hcontrol : e.control with
    | asking =>
      cases yes with
      | true =>
        simp only [resume, hcontrol]
        exact .urge hcontrol
      | false =>
        simp only [resume, hcontrol]
        exact .wait hcontrol
    | _ => simp [hrequest, request, hcontrol] at hreq
  | take hreq =>
    cases hcontrol : e.control <;> simp [hrequest, request, hcontrol] at hreq
  | apply hreq hunits hok =>
    rename_i batch outcome
    have hok : (e.apply batch).1 = .ok outcome := hok
    show e.Step c ((e.apply batch).2.resume (.applied outcome)) c
    cases hcontrol : e.control with
    | applying =>
      have hafter := (e.control_apply batch).trans hcontrol
      cases outcome with
      | applied =>
        simp only [resume, hafter]
        exact .apply hcontrol hok
      | conflict =>
        simp only [resume, hafter]
        exact .conflict hcontrol hunits hok
    | _ => simp [hrequest, request, hcontrol] at hreq
  | spare hreq =>
    show e.Step c (e.resume (.applied .applied)) c
    cases hcontrol : e.control with
    | applying =>
      simp only [resume, hcontrol]
      exact .spare hcontrol
    | _ => simp [hrequest, request, hcontrol] at hreq

/-! ## The parts of the loop -/

section Parts

omit [Sampler ρ]

theorem exists_literal_of_isUnit {clause : Clause} (h : clause.isUnit = true) :
    ∃ l, clause.literals = [l] := List.length_eq_one_iff.1 (eq_of_beq h)

/-- A clause that has been learnt sends the engine to its end only by a contradiction. -/
theorem learn_cases (e : Simulated ρ) (learnt : Learnt) :
    (∃ units, e.learn learnt = { e with units, control := .failing .overflow }) ∨
    (∃ units l, e.learn learnt = { e with units, control := .concluding .unsatisfiable } ∧
      e.simulation.verdict = .unsatisfiable ∧ learnt.clause.literals = [l] ∧ -l ∈ e.units) ∨
    (∃ units, e.learn learnt = { e with units, control := .exporting learnt }) ∨
    ∃ units, e.learn learnt = { e with units, control := .looking } := by
  have hgo {met : Bool} {units : FixedUnits} (hfix : fixLearnt e.units learnt.clause = (.ok met, units))
      (hnot : ¬ (met && e.simulation.verdict == .unsatisfiable) = true) :
      (∃ units, e.learn learnt = { e with units, control := .exporting learnt }) ∨
        ∃ units, e.learn learnt = { e with units, control := .looking } := by
    simp only [learn, hfix, if_neg hnot]
    split
    · exact .inl ⟨units, rfl⟩
    · exact .inr ⟨units, rfl⟩
  by_cases hunit : learnt.clause.isUnit = true
  · obtain ⟨l, hl⟩ := exists_literal_of_isUnit hunit
    have hhead : learnt.clause.literals.head? = some l := by rw [hl]; rfl
    have hfixed : fixLearnt e.units learnt.clause = e.units.fixAll false [learnt.clause] :=
      if_pos hunit
    rcases hfix : e.units.fixAll false [learnt.clause] with ⟨f | met, units⟩
    · have hfail : (e.units.fixAll false [learnt.clause]).1 = .error f := by rw [hfix]
      obtain rfl : f = .overflow := FixedUnits.fixAll_eq_error (by simp [hl]) hfail
      refine .inl ⟨units, ?_⟩
      simp only [learn, hfixed, hfix]
    · by_cases hmet : (met && e.simulation.verdict == .unsatisfiable) = true
      · obtain ⟨rfl, hverdict⟩ : met = true ∧ e.simulation.verdict = .unsatisfiable := by
          simpa using hmet
        have hrefutes := (FixedUnits.fixAll_eq_ok (by rw [hfix])).1 rfl
        refine .inr (.inl ⟨units, l, ?_, hverdict, hl, ?_⟩)
        · simp only [learn, hfixed, hfix, if_pos hmet]
        · exact FixedUnits.mem_of_refutes_singleton hhead (hrefutes.resolve_left Bool.false_ne_true)
      · exact .inr (.inr (hgo (hfixed.trans hfix) hmet))
  · exact .inr (.inr (hgo (if_neg hunit) (by simp)))

theorem proceed_cases (e : Simulated ρ) :
    (∃ counters : EngineStatistics, counters.conflicts = e.counters.conflicts ∧
      e.proceed = { e with counters, control := .applying }) ∨
    e.proceed = { e with control := .asking } := by
  unfold proceed
  split
  · exact .inl ⟨{ e.counters with restarts := e.counters.restarts + 1 }, rfl, rfl⟩
  · exact .inr rfl

theorem judge_cases (e : Simulated ρ) :
    e.concludeAfter ≤ e.counters.conflicts ∧
      e.judge = { e with control := .concluding e.simulation.verdict } ∨
    e.counters.conflicts < e.concludeAfter ∧ e.judge = { e with control := .searching } := by
  unfold judge
  split
  · exact .inl ⟨‹_›, rfl⟩
  · exact .inr ⟨Nat.lt_of_not_le ‹_›, rfl⟩

/-- Applying clauses adds to the units and the counters, and it is a conflict by a contradiction. -/
theorem apply_cases {e : Simulated ρ} {batch : Batch} {outcome : ApplyOutcome}
    (h : (e.apply batch).1 = .ok outcome) :
    (∃ (units : FixedUnits) (imported : Nat) (counters : EngineStatistics),
      counters.conflicts = e.counters.conflicts ∧
      (e.apply batch).2 = { e with units, imported, counters }) ∧
    (outcome = .conflict ↔ e.simulation.verdict = .unsatisfiable ∧
      e.units.Refutes batch.units.toList) := by
  unfold apply at h ⊢
  rcases hfix : e.units.fixAll false batch.units.toList with ⟨f | met, units⟩
  · rw [hfix] at h
    cases h
  · rw [hfix] at h
    have hok : (e.units.fixAll false batch.units.toList).1 = .ok met := by rw [hfix]
    have hmet : met = true ↔ e.units.Refutes batch.units.toList := by
      simpa using FixedUnits.fixAll_eq_ok hok
    obtain rfl := Except.ok.inj h
    let counters := { e.counters with
      redundantClauses := e.counters.redundantClauses + batch.clauses.size }
    refine ⟨⟨units, e.imported + batch.clauses.size, counters, rfl, rfl⟩, ?_⟩
    rw [← hmet]
    cases met <;> simp

@[simp] theorem simulation_learn (e : Simulated ρ) (learnt : Learnt) :
    (e.learn learnt).simulation = e.simulation := by
  unfold learn
  split <;> rfl

@[simp] theorem simulation_proceed (e : Simulated ρ) : e.proceed.simulation = e.simulation := by
  unfold proceed
  split <;> rfl

@[simp] theorem simulation_judge (e : Simulated ρ) : e.judge.simulation = e.simulation := by
  unfold judge
  split <;> rfl

@[simp] theorem simulation_apply (e : Simulated ρ) (batch : Batch) :
    (e.apply batch).2.simulation = e.simulation := by
  unfold apply
  split <;> rfl

theorem apply_eq_error {e : Simulated ρ} {batch : Batch} {f : Fault}
    (hunits : ∀ u ∈ batch.units, u.isUnit = true) (h : (e.apply batch).1 = .error f) :
    f = .overflow := by
  unfold apply at h
  split at h
  · rename_i f' units hfix
    obtain rfl := Except.error.inj h
    have hfail : (e.units.fixAll false batch.units.toList).1 = .error f' := by rw [hfix]
    refine FixedUnits.fixAll_eq_error (fun u hu => ?_) hfail
    obtain ⟨l, hl⟩ := exists_literal_of_isUnit (hunits u (Array.mem_toList_iff.1 hu))
    rw [hl]
    exact List.cons_ne_nil l []
  · cases h

theorem relax_eq_error {e : Simulated ρ} {f : Fault} (h : e.relax.1 = .error f) : f = .overflow := by
  unfold relax Word.addHalf at h
  split at h
  · rename_i f' hf
    obtain rfl := Except.error.inj h
    split at hf <;> cases hf
    rfl
  · cases h

end Parts

/-! ## What every reply preserves -/

@[simp] theorem simulation_search (e : Simulated ρ) : e.search.simulation = e.simulation := by
  unfold Simulated.search
  split <;> rfl

theorem Step.simulation_eq (h : e.Step c e' c') : e'.simulation = e.simulation := by
  cases h with
  | stop hcontrol =>
    rename_i advice
    obtain ⟨threshold, heq⟩ := resume_stop hcontrol advice
    rw [heq]
  | _ => simp

/-- The conflicts that an engine may have: it looks at their number only after the first. -/
def mostConflicts (e : Simulated ρ) : Nat := max 1 e.concludeAfter

/-- What is known at each place of the loop. -/
def Fits (e : Simulated ρ) (c : Clock) : Prop :=
  match e.control with
  | .searching => 1 ≤ c.length ∧ e.counters.conflicts < e.mostConflicts
  | .spending work _ => 1 ≤ c.length ∧ work ≤ e.simulation.maxStepWork
  | .checking => 1 ≤ c.length ∧ c.length ≤ c.work
  | .exporting _ | .looking | .asking | .applying => 1 ≤ c.length
  | .concluding _ => True
  | .failing f => f = .overflow

/-- A simulated engine in the course of its run. -/
structure Underway (s : Simulation) (budget : Nat) (e : Simulated ρ) (c : Clock) : Prop where
  simulation_eq : e.simulation = s
  concludeAfter_eq : e.concludeAfter = budget
  conflicts_le : e.counters.conflicts ≤ e.mostConflicts
  fits : e.Fits c

namespace Underway

variable {s : Simulation} {budget : Nat}

omit [Sampler ρ] in
/-- An engine stays underway as long as it keeps its budget and its conflicts. -/
theorem trans (h : Underway s budget e c) (hsimulation : e'.simulation = e.simulation)
    (hbudget : e'.concludeAfter = e.concludeAfter)
    (hconflicts : e'.counters.conflicts = e.counters.conflicts) (hfits : e'.Fits c') :
    Underway s budget e' c' where
  simulation_eq := hsimulation.trans h.simulation_eq
  concludeAfter_eq := hbudget.trans h.concludeAfter_eq
  conflicts_le := by
    rw [mostConflicts, hconflicts, hbudget]
    exact h.conflicts_le
  fits := hfits

omit [Sampler ρ] in
theorem judge (h : Underway s budget e c) (hlength : 1 ≤ c.length) :
    Underway s budget e.judge c := by
  rcases e.judge_cases with ⟨-, heq⟩ | ⟨hleft, heq⟩
  · rw [heq]
    exact h.trans rfl rfl rfl trivial
  · rw [heq]
    exact h.trans rfl rfl rfl ⟨hlength, Nat.lt_of_lt_of_le hleft (Nat.le_max_right _ _)⟩

/-- Every reply preserves it. -/
theorem step (h : Underway s budget e c) (hranges : s.HasRanges)
    (hlearn : s.learnProbability.isNaN = false) (hstep : e.Step c e' c') :
    Underway s budget e' c' := by
  have hfits := h.fits
  cases hstep with
  | search hcontrol =>
    simp only [Fits, hcontrol] at hfits
    obtain rfl := h.simulation_eq
    rcases e.search_cases hranges with
      ⟨source, f, heq, hf⟩ | ⟨source, work, counters, learnt?, heq, -, hwork, hcount, -⟩
    · rw [heq]
      refine h.trans rfl rfl rfl (hf.resolve_right fun hnone => ?_)
      rw [hlearn] at hnone
      cases hnone.2
    · rw [heq]
      refine ⟨rfl, h.concludeAfter_eq, ?_, hfits.1, hwork⟩
      rw [hcount]
      exact hfits.2
  | spend hcontrol | offer hcontrol | urge hcontrol =>
    simp only [Fits, hcontrol] at hfits
    refine h.trans rfl rfl rfl ?_
    simp [Fits, hfits]
  | pass hcontrol hleft =>
    simp only [Fits, hcontrol] at hfits
    exact h.trans rfl rfl rfl hfits.1
  | learn hcontrol =>
    rename_i work learnt
    simp only [Fits, hcontrol] at hfits
    rcases e.learn_cases learnt with
      ⟨units, heq⟩ | ⟨units, l, heq, -⟩ | ⟨units, heq⟩ | ⟨units, heq⟩
    · rw [heq]
      exact h.trans rfl rfl rfl rfl
    · rw [heq]
      exact h.trans rfl rfl rfl trivial
    · rw [heq]
      exact h.trans rfl rfl rfl hfits.1
    · rw [heq]
      exact h.trans rfl rfl rfl hfits.1
  | arrive hcontrol hused =>
    simp only [Fits, hcontrol] at hfits
    exact h.trans rfl rfl rfl ⟨hfits, hused⟩
  | proceed hcontrol =>
    simp only [Fits, hcontrol] at hfits
    rcases e.proceed_cases with ⟨counters, hsame, heq⟩ | heq
    · rw [heq]
      exact h.trans rfl rfl hsame hfits
    · rw [heq]
      exact h.trans rfl rfl rfl hfits
  | enter hcontrol hused hlength => exact h.trans rfl rfl rfl hlength
  | stop hcontrol =>
    rename_i advice
    obtain ⟨threshold, heq⟩ := resume_stop hcontrol advice
    rw [heq]
    exact h.trans rfl rfl rfl trivial
  | wait hcontrol | spare hcontrol =>
    simp only [Fits, hcontrol] at hfits
    exact h.judge hfits
  | apply hcontrol hok =>
    obtain ⟨⟨units, imported, counters, hsame, heq⟩, -⟩ := apply_cases hok
    simp only [Fits, hcontrol] at hfits
    rw [heq]
    refine Underway.judge (h.trans rfl rfl hsame ?_) hfits
    simpa only [Fits, hcontrol] using hfits
  | conflict hcontrol hunits hok =>
    obtain ⟨⟨units, imported, counters, hsame, heq⟩, -⟩ := apply_cases hok
    rw [heq]
    exact h.trans rfl rfl hsame trivial

end Underway

/-! ## How long the engine runs -/

/-- The most requests that a conflict brings, those for the periods that its work fills included. -/
def conflictRequests (s : Simulation) : Nat := 3 * s.maxStepWork + 6

/-- The most requests that the conflicts to come and the work of the period can bring. -/
def requestsLater (e : Simulated ρ) (c : Clock) : Nat :=
  (e.mostConflicts - e.counters.conflicts) * conflictRequests e.simulation + 3 * c.work

/-- The most requests that an engine still makes before it has ended. -/
def requestsLeft (e : Simulated ρ) (c : Clock) : Nat :=
  match e.control with
  | .searching => e.requestsLater c + 1
  | .spending work _ => e.requestsLater c + 3 * work + 6
  | .exporting _ => e.requestsLater c + 5
  | .looking => e.requestsLater c + 4
  | .checking | .asking => e.requestsLater c + 3
  | .applying => e.requestsLater c + 2
  | .concluding _ | .failing _ => 0

omit [Sampler ρ] in
theorem requestsLater_congr (hsimulation : e'.simulation = e.simulation)
    (hbudget : e'.concludeAfter = e.concludeAfter)
    (hconflicts : e'.counters.conflicts = e.counters.conflicts) :
    e'.requestsLater c = e.requestsLater c := by
  rw [requestsLater, requestsLater, mostConflicts, mostConflicts, hsimulation, hbudget, hconflicts]

omit [Sampler ρ] in
/-- One more conflict takes its requests off. -/
theorem requestsLater_conflict (hsimulation : e'.simulation = e.simulation)
    (hbudget : e'.concludeAfter = e.concludeAfter)
    (hconflicts : e'.counters.conflicts = e.counters.conflicts + 1)
    (hleft : e.counters.conflicts < e.mostConflicts) :
    e'.requestsLater c + conflictRequests e.simulation = e.requestsLater c := by
  have hmost : e'.mostConflicts = e.mostConflicts := by rw [mostConflicts, hbudget, mostConflicts]
  obtain ⟨k, hk⟩ := Nat.exists_eq_add_of_lt hleft
  rw [requestsLater, requestsLater, hsimulation, hmost, hconflicts, hk,
    show e.counters.conflicts + k + 1 - (e.counters.conflicts + 1) = k by omega,
    show e.counters.conflicts + k + 1 - e.counters.conflicts = k + 1 by omega, Nat.add_one_mul k]
  omega

omit [Sampler ρ] in
theorem requestsLeft_judge_le (e : Simulated ρ) (c : Clock) :
    e.judge.requestsLeft c ≤ e.requestsLater c + 1 := by
  rcases e.judge_cases with ⟨-, heq⟩ | ⟨-, heq⟩
  · rw [heq]
    exact Nat.zero_le _
  · rw [heq]
    exact Nat.le_refl _

omit [Sampler ρ] in
/-- Work that is counted is still to be used up by periods. -/
theorem requestsLater_satAdd_le (e : Simulated ρ) (c : Clock) (work : Nat) :
    e.requestsLater { c with work := Word.satAdd c.work work } ≤ e.requestsLater c + 3 * work := by
  have hsat : Word.satAdd c.work work ≤ c.work + work := Nat.min_le_left _ _
  simp only [requestsLater]
  omega

/-- An engine that gets a reply has not ended. -/
theorem Step.requestsLeft_pos (h : e.Step c e' c') : 0 < e.requestsLeft c := by
  cases h <;> simp only [requestsLeft, *] <;> omega

/-- Every reply brings the engine nearer to its end. -/
theorem requestsLeft_step (hfits : e.Fits c) (hranges : e.simulation.HasRanges)
    (hstep : e.Step c e' c') : e'.requestsLeft c' < e.requestsLeft c := by
  have hpos := hstep.requestsLeft_pos
  cases hstep with
  | search hcontrol =>
    simp only [Fits, hcontrol] at hfits
    simp only [requestsLeft, hcontrol]
    rcases e.search_cases hranges with
      ⟨source, f, heq, -⟩ | ⟨source, work, counters, learnt?, heq, -, hwork, hcount, -⟩
    · rw [heq]
      exact Nat.succ_pos _
    · rw [heq]
      have hone : requestsLater { e with source, counters, control := .spending work learnt? } c +
          conflictRequests e.simulation = e.requestsLater c :=
        requestsLater_conflict rfl rfl hcount hfits.2
      rw [conflictRequests] at hone
      dsimp only
      omega
  | spend hcontrol =>
    rename_i work
    have hle := e.requestsLater_satAdd_le c work
    simp only [requestsLeft, hcontrol]
    show e.requestsLater _ + 4 < _
    omega
  | learn hcontrol =>
    rename_i work learnt
    have hle := e.requestsLater_satAdd_le c work
    simp only [requestsLeft, hcontrol] at hpos ⊢
    rcases e.learn_cases learnt with
      ⟨units, heq⟩ | ⟨units, l, heq, -⟩ | ⟨units, heq⟩ | ⟨units, heq⟩
    · rw [heq]
      exact hpos
    · rw [heq]
      exact hpos
    · rw [heq]
      show e.requestsLater _ + 5 < _
      omega
    · rw [heq]
      show e.requestsLater _ + 4 < _
      omega
  | offer hcontrol =>
    simp only [requestsLeft, hcontrol]
    exact Nat.lt_succ_self (e.requestsLater c + 4)
  | arrive hcontrol hused =>
    simp only [requestsLeft, hcontrol]
    exact Nat.lt_succ_self (e.requestsLater c + 3)
  | proceed hcontrol =>
    simp only [requestsLeft, hcontrol]
    rcases e.proceed_cases with ⟨counters, hsame, heq⟩ | heq
    · rw [heq]
      have hlater : requestsLater { e with counters, control := .applying } c = e.requestsLater c :=
        requestsLater_congr rfl rfl hsame
      dsimp only
      omega
    · rw [heq]
      exact Nat.lt_succ_self (e.requestsLater c + 3)
  | pass hcontrol hleft =>
    -- an engine checks only what has been used up
    simp only [Fits, hcontrol] at hfits
    exact absurd hleft (Nat.not_lt.2 hfits.2)
  | enter hcontrol hused hlength =>
    rename_i threshold length
    simp only [Fits, hcontrol] at hfits
    simp only [requestsLeft, hcontrol]
    have hlater : requestsLater { e with threshold, control := .looking }
        ⟨c.work - c.length, length⟩ + 3 * c.length = e.requestsLater c := by
      simp only [requestsLater, mostConflicts]
      omega
    omega
  | stop hcontrol =>
    rename_i advice
    obtain ⟨threshold, heq⟩ := resume_stop hcontrol advice
    rw [heq]
    exact hpos
  | urge hcontrol =>
    simp only [requestsLeft, hcontrol]
    exact Nat.lt_succ_self (e.requestsLater c + 2)
  | wait hcontrol | spare hcontrol =>
    have hle := e.requestsLeft_judge_le c
    have hleft : e.requestsLater c + 2 ≤ e.requestsLeft c := by
      simp only [requestsLeft, hcontrol]
      omega
    omega
  | apply hcontrol hok =>
    rename_i batch
    obtain ⟨⟨units, imported, counters, hsame, heq⟩, -⟩ := apply_cases hok
    have hle := (e.apply batch).2.requestsLeft_judge_le c
    have hlater : (e.apply batch).2.requestsLater c = e.requestsLater c := by
      rw [heq]
      exact requestsLater_congr rfl rfl hsame
    rw [hlater] at hle
    have hleft : e.requestsLeft c = e.requestsLater c + 2 := by
      simp only [requestsLeft, hcontrol]
    omega
  | conflict hcontrol hunits hok => exact hpos

/-! ## Why the engine ends -/

/-- The reasons for which an engine ends with a verdict, after the reply that it got last. -/
inductive Concludes (before : Simulated ρ) : Simulated ρ → Verdict → Prop
  /-- The worker has answered that the engine has to stop. -/
  | stopped {advice : Advice} (hcontrol : before.control = .checking) :
      Concludes before ((engine.advised before advice).resume (.answer false)) .unknown
  /-- There have been enough conflicts. -/
  | spent {e : Simulated ρ} (hspent : e.concludeAfter ≤ e.counters.conflicts) :
      Concludes before e e.simulation.verdict
  /-- The engine is to find the formula unsatisfiable, and has learnt the negation of a unit. -/
  | learnt {work : Nat} {learnt : Learnt} {l : Literal}
      (hcontrol : before.control = .spending work (some learnt))
      (hunit : learnt.clause.literals = [l]) (hmet : -l ∈ before.units)
      (hverdict : before.simulation.verdict = .unsatisfiable) :
      Concludes before (before.learn learnt) .unsatisfiable
  /-- It is, and a unit that it has applied contradicts one that was fixed by then. -/
  | imported {batch : Batch} (hcontrol : before.control = .applying)
      (hunits : ∀ u ∈ batch.units, u.isUnit = true)
      (hmet : before.units.Refutes batch.units.toList)
      (hverdict : before.simulation.verdict = .unsatisfiable) :
      Concludes before { (before.apply batch).2 with control := .concluding .unsatisfiable }
        .unsatisfiable

omit [Sampler ρ] in
theorem control_of_conclude {v : Verdict} (h : e.request = .conclude v) :
    e.control = .concluding v := by
  unfold request at h
  split at h <;> cases h
  assumption

theorem concludes_of_judge {v : Verdict} (hv : e.judge.control = .concluding v) (before : Simulated ρ) :
    before.Concludes e.judge v := by
  rcases e.judge_cases with ⟨hspent, heq⟩ | ⟨-, heq⟩
  · rw [heq] at hv ⊢
    obtain rfl := SimulationControl.concluding.inj hv
    exact .spent hspent
  · rw [heq] at hv
    cases hv

/-- There are no other reasons. -/
theorem Step.concludes (h : e.Step c e' c') {v : Verdict} (hv : e'.control = .concluding v) :
    e.Concludes e' v := by
  cases h with
  | search hcontrol =>
    unfold Simulated.search at hv
    split at hv <;> cases hv
  | learn hcontrol =>
    rename_i work learnt
    rcases e.learn_cases learnt with
      ⟨units, heq⟩ | ⟨units, l, heq, hverdict, hunit, hmet⟩ | ⟨units, heq⟩ | ⟨units, heq⟩
    · rw [heq] at hv
      cases hv
    · have hend := hv
      rw [heq] at hend
      obtain rfl := SimulationControl.concluding.inj hend
      exact .learnt hcontrol hunit hmet hverdict
    · rw [heq] at hv
      cases hv
    · rw [heq] at hv
      cases hv
  | proceed hcontrol =>
    rcases e.proceed_cases with ⟨counters, hsame, heq⟩ | heq <;> rw [heq] at hv <;> cases hv
  | stop hcontrol =>
    rename_i advice
    obtain ⟨threshold, heq⟩ := resume_stop hcontrol advice
    have hend := hv
    rw [heq] at hend
    obtain rfl := SimulationControl.concluding.inj hend
    exact .stopped hcontrol
  | wait | spare | apply => exact concludes_of_judge hv e
  | conflict hcontrol hunits hok =>
    obtain ⟨-, hconflict⟩ := apply_cases hok
    obtain ⟨hverdict, hmet⟩ := hconflict.1 rfl
    obtain rfl := SimulationControl.concluding.inj hv
    exact .imported hcontrol hunits hmet hverdict
  | spend | offer | arrive | pass | enter | urge => cases hv

omit [Sampler ρ] in
theorem control_of_fail {f : Fault} (h : e.request = .fail f) : e.control = .failing f := by
  unfold request at h
  split at h <;> cases h
  assumption

/-- An engine that has not ended makes a request that its worker can answer. -/
theorem exists_served (e : Simulated ρ) (c : Clock) : (∃ v, e.request = .conclude v) ∨
    (∃ f, e.request = .fail f) ∨ ∃ e' c', engine.Served e c e' c' := by
  have hrequest : engine.request e = e.request := rfl
  cases hcontrol : e.control with
  | concluding v =>
    refine .inl ⟨v, ?_⟩
    simp only [request, hcontrol]
  | failing f =>
    refine .inr (.inl ⟨f, ?_⟩)
    simp only [request, hcontrol]
  | searching | looking =>
    let view : WorkerView := ⟨0, 0, c.length, false, decide (c.length ≤ c.work), {}, {}⟩
    refine .inr (.inr ⟨engine.resume e (.seen view), c, .observe ?_ rfl⟩)
    simp only [hrequest, request, hcontrol]
  | spending work =>
    refine .inr (.inr ⟨_, { c with work := Word.satAdd c.work work }, .work ?_⟩)
    simp only [hrequest, request, hcontrol]
  | exporting learnt =>
    have hreq : engine.request e = .exportCandidate learnt.clause learnt.quality := by
      simp only [hrequest, request, hcontrol]
    exact .inr (.inr ⟨_, c, .offer hreq⟩)
  | checking =>
    refine .inr (.inr ⟨engine.resume (engine.advised e .keep) (.answer false), c, .stop ?_⟩)
    simp only [hrequest, request, hcontrol]
  | asking =>
    refine .inr (.inr ⟨engine.resume e (.answer true), c, .ask ?_⟩)
    simp only [hrequest, request, hcontrol]
  | applying =>
    refine .inr (.inr ⟨engine.resume e (.applied .applied), c, .spare ?_⟩)
    simp only [hrequest, request, hcontrol]

/-! ## Whole runs -/

section Runs

variable {s : Simulation} {source : ρ} {c₀ : Clock} {n : Nat}

theorem underway_start (s : Simulation) (source : ρ) (hlength : 1 ≤ c₀.length) :
    (start s source).Underway s (start s source).concludeAfter c₀ where
  simulation_eq := rfl
  concludeAfter_eq := rfl
  conflicts_le := Nat.zero_le _
  fits := ⟨hlength, Nat.le_max_left _ _⟩

/-- In the course of a run the engine is underway, and the requests are those that it has left. -/
theorem underway_of_driven (hranges : s.HasRanges) (hlearn : s.learnProbability.isNaN = false)
    (hlength : 1 ≤ c₀.length) (h : engine.Driven (start s source) c₀ n e c) :
    e.Underway s (start s source).concludeAfter c ∧
      n + e.requestsLeft c ≤ (start s source).requestsLeft c₀ := by
  induction h with
  | start => exact ⟨underway_start s source hlength, (Nat.zero_add _).le⟩
  | next hdriven hserved ih =>
    obtain ⟨hunderway, hle⟩ := ih
    have hstep := step_of_served hserved
    have hranges' := hranges
    rw [← hunderway.simulation_eq] at hranges'
    have hless := requestsLeft_step hunderway.fits hranges' hstep
    exact ⟨hunderway.step hranges hlearn hstep, by omega⟩

/-- What is true of a run of `n` requests. -/
structure FollowsScript (s : Simulation) (source : ρ) (c₀ : Clock) (n : Nat) (e : Simulated ρ)
    (c : Clock) : Prop where
  simulation_eq : e.simulation = s
  concludeAfter_eq : e.concludeAfter = (start s source).concludeAfter
  /-- There are no more conflicts than the engine was to have, or one, -/
  conflicts_le : e.counters.conflicts ≤ max 1 e.concludeAfter
  /-- and so the run is short. -/
  requests_le : n ≤ max 1 e.concludeAfter * (3 * s.maxStepWork + 6) + 3 * c₀.work + 1
  /-- The engine has ended, or it goes on with any answer of its worker. -/
  goes_on : (∃ v, e.request = .conclude v) ∨ e.request = .fail .overflow ∨
    ∃ e' c', engine.Served e c e' c'
  /-- Only an overflow keeps it from applying clauses -/
  apply_error : ∀ (batch : Batch) (f : Fault), (∀ u ∈ batch.units, u.isUnit = true) →
    (e.apply batch).1 = .error f → f = .overflow
  /-- and from taking an advice. -/
  relax_error : ∀ f, e.relax.1 = .error f → f = .overflow
  /-- The engine ends with the verdict of its script unless it is stopped. -/
  concludes : ∀ v, e.request = .conclude v → (v = .unknown ∨ v = s.verdict) ∧
    ∃ m before c', n = m + 1 ∧ engine.Driven (start s source) c₀ m before c' ∧
      before.Concludes e v

theorem simulation_of_driven (h : engine.Driven (start s source) c₀ n e c) : e.simulation = s := by
  induction h with
  | start => rfl
  | next _ hserved ih => exact (step_of_served hserved).simulation_eq.trans ih

theorem Concludes.verdict_eq {before : Simulated ρ} {v : Verdict} (h : before.Concludes e v)
    (hbefore : before.simulation = s) (he : e.simulation = s) : v = .unknown ∨ v = s.verdict := by
  cases h with
  | stopped => exact .inl rfl
  | spent => exact .inr (by rw [he])
  | learnt _ _ _ hverdict | imported _ _ _ hverdict =>
    rw [hbefore] at hverdict
    exact .inr hverdict.symm

/-- An engine that has ended with a verdict has a reason for it. -/
theorem concludes_of_driven (h : engine.Driven (start s source) c₀ n e c) {v : Verdict}
    (hv : e.request = .conclude v) : (v = .unknown ∨ v = s.verdict) ∧
      ∃ m before c', n = m + 1 ∧ engine.Driven (start s source) c₀ m before c' ∧
        before.Concludes e v := by
  have hcontrol := control_of_conclude hv
  have hsimulation := simulation_of_driven h
  cases h with
  | start => cases hcontrol
  | next hdriven hserved =>
    have hconcludes := (step_of_served hserved).concludes hcontrol
    exact ⟨hconcludes.verdict_eq (simulation_of_driven hdriven) hsimulation, _, _, _, rfl, hdriven,
      hconcludes⟩

/-- Every run follows the script. -/
theorem followsScript_of_driven (hranges : s.HasRanges) (hlearn : s.learnProbability.isNaN = false)
    (hlength : 1 ≤ c₀.length) (h : engine.Driven (start s source) c₀ n e c) :
    FollowsScript s source c₀ n e c := by
  obtain ⟨hunderway, hle⟩ := underway_of_driven hranges hlearn hlength h
  have hbudget := hunderway.concludeAfter_eq
  refine ⟨hunderway.simulation_eq, hbudget, hunderway.conflicts_le, ?_, ?_,
    fun batch f => apply_eq_error, fun f => relax_eq_error, fun v => concludes_of_driven h⟩
  · rw [hbudget]
    have hstart : (start s source).requestsLeft c₀ =
        max 1 (start s source).concludeAfter * (3 * s.maxStepWork + 6) + 3 * c₀.work + 1 := rfl
    omega
  · refine (e.exists_served c).imp_right fun hgo => hgo.imp_left fun hfail => ?_
    obtain ⟨f, hf⟩ := hfail
    have hfits := hunderway.fits
    simp only [Fits, control_of_fail hf] at hfits
    rw [hf, hfits]

/-! ## In an exchange -/

/-- The verdicts of workers whose engines follow one script. -/
theorem verdict_of_follow {config : Config} {x : Exchange (Simulated ρ)} (h : x.Fresh config)
    (hperiods : 1 ≤ config.periodLength)
    (hengines : ∀ (i : Nat) (r : Runner (Simulated ρ)), x.runners[i]? = some r →
      ∃ source, r.engine = start s source) (t : List Nat) {i : Nat} {r : Runner (Simulated ρ)}
    (hr : (x.follow engine t).runners[i]? = some r) {v : Verdict}
    (hv : r.control.verdict? = some v) : v = .unknown ∨ v = s.verdict := by
  obtain ⟨r₀, hr₀⟩ := h.standing.exists_runner ((h.standing.follow engine t).lt_numWorkers hr)
  obtain ⟨source, hsource⟩ := hengines i r₀ hr₀
  obtain ⟨q, hq, hdrives⟩ := h.drives_follow hperiods engine hr₀ t
  obtain rfl := Option.some.inj (hr.symm.trans hq)
  obtain ⟨hreq, n, c, hdriven⟩ := hdrives.concluded v hv
  rw [hsource] at hdriven
  exact (concludes_of_driven hdriven hreq).1

end Runs

/-- **A simulated engine follows its script in every exchange.** In whatever way it is driven, it
ends after a bounded number of requests and conflicts, and with the verdict of its script unless it
is stopped. So engines of one script never contradict each other. -/
theorem follows_script {s : Simulation} (hranges : s.HasRanges)
    (hlearn : s.learnProbability.isNaN = false) :
    (∀ source : ρ, ∃ jitter ≤ s.concludeJitter,
      (start s source).concludeAfter = Word.satAdd s.concludeAfter jitter) ∧
    (∀ (source : ρ) (c₀ : Clock) (n : Nat) (e : Simulated ρ) (c : Clock), 1 ≤ c₀.length →
      engine.Driven (start s source) c₀ n e c → FollowsScript s source c₀ n e c) ∧
    ∀ (engines : List (Simulated ρ)) (config : Config) (sensors : Sensors)
      (p : Portfolio (Simulated ρ)) (moves : List Move),
      Portfolio.launch engines config sensors = .ok p →
      (∀ e ∈ engines, ∃ source, e = start s source) →
      let q := p.after engine moves
      (∀ (i : Nat) (r : Runner (Simulated ρ)) (v : Verdict), q.runners[i]? = some r →
        r.control.verdict? = some v → v = .unknown ∨ v = s.verdict) ∧
      (∀ (i : Nat) (r : Runner (Simulated ρ)) (v : Verdict), q.runners[i]? = some r →
        r.control = .reporting v →
        ∃ best, (q.shared.coordinator.report ⟨v, ⟨r.worker.period, r.worker.id⟩⟩).1 = .ok best) ∧
      (q.shared.coordinator.verdict = .unknown ∨ q.shared.coordinator.verdict = s.verdict) := by
  refine ⟨fun source => ⟨_, (Sampler.number_mem .double (Nat.zero_le _) source).2, rfl⟩,
    fun source c₀ n e c hlength => followsScript_of_driven hranges hlearn hlength,
    fun engines config sensors p moves hlaunch hengines => ?_⟩
  have hfresh := Portfolio.fresh_of_launch hlaunch
  have hperiods := Portfolio.one_le_periodLength_of_launch hlaunch
  have hstart (i : Nat) (r : Runner (Simulated ρ)) (hr : p.toExchange.runners[i]? = some r) :
      ∃ source, r.engine = start s source :=
    hengines r.engine (Portfolio.engine_mem_of_launch hlaunch hr)
  intro q
  have hrunners : q.runners = (p.toExchange.follow engine (Move.turns moves)).runners :=
    Portfolio.runners_after hfresh.standing engine moves
  have hcoordinator : q.shared.coordinator =
      (p.toExchange.follow engine (Move.turns moves)).shared.coordinator :=
    Portfolio.coordinator_after hfresh.standing engine moves
  have hverdict := verdict_of_follow hfresh hperiods hstart
  have hwinner := hfresh.winner_of_reporting engine (p := fun v => v = .unknown ∨ v = s.verdict)
    fun t i r v hr hreporting => hverdict t hr (by rw [hreporting]; rfl)
  rw [hrunners, hcoordinator]
  refine ⟨fun i r v hr hv => hverdict _ hr hv, fun i r v hr hreporting => ?_, ?_⟩
  · cases hdisplaces : Report.displaces ⟨v, ⟨r.worker.period, r.worker.id⟩⟩
        (p.toExchange.follow engine (Move.turns moves)).shared.coordinator.winner? with
    | ok best => exact ⟨best, by rw [Coordinator.report_of_displaces hdisplaces]⟩
    | error f =>
      obtain ⟨W, hW, hcontra⟩ := Report.displaces_eq_error hdisplaces
      obtain ⟨hconclusive, hconclusive', hne⟩ := Verdict.contradicts_eq_true_iff.1 hcontra
      have hwinner := (hwinner _ hW).resolve_left (Verdict.isConclusive_iff.1 hconclusive)
      have hreport := (hverdict _ hr (by rw [hreporting]; rfl)).resolve_left
        (Verdict.isConclusive_iff.1 hconclusive')
      exact absurd (hwinner.trans hreport.symm) hne
  · unfold Coordinator.verdict
    split
    · exact .inl rfl
    · exact hwinner _ ‹_›

/-- The script of an engine that learns nothing by itself, and applies imported clauses after every
conflict. -/
def attentive : Simulation :=
  { learnProbability := 0.0, minStepWork := 100, maxStepWork := 100, restartInterval := 1
    concludeAfter := 5, concludeJitter := 0, verdict := .unsatisfiable }

/-- An engine with this script uses up a period with every conflict. After the first one it imports a
unit, after the second one the negation of this unit, and then it concludes. -/
theorem follows_script_attentive :
    ∃ (source : ChaCha.Stream) (e : Simulated ChaCha.Stream) (c : Clock),
      engine.Driven (start attentive source) ⟨0, 100⟩ 12 e c ∧
        e.request = .conclude .unsatisfiable ∧
        FollowsScript attentive source ⟨0, 100⟩ 12 e c ∧
        e.counters.conflicts = 2 ∧ e.concludeAfter = 5 := by
  let source := ChaCha.Stream.ofSeed 0
  let inside : WorkerView := ⟨0, 0, 100, false, false, {}, {}⟩
  let atEnd : WorkerView := { inside with atBoundary := true }
  let unit : Batch := { units := #[⟨[3], by decide⟩] }
  let negation : Batch := { units := #[⟨[-3], by decide⟩] }
  have hsearched : engine.Driven (start attentive source) ⟨0, 100⟩ 1
      (engine.resume (start attentive source) (.seen inside)) ⟨0, 100⟩ :=
    .next .start (.observe (by decide +kernel) (by decide +kernel))
  have hspent := hsearched.next (.work (by decide +kernel : _ = Request.addWork 100))
  have hlooked := hspent.next
    (.observe (by decide +kernel) (by decide +kernel : atEnd.atBoundary = _))
  have hentered : engine.Driven _ _ 4
      (engine.resume (engine.advised _ .keep) (.answer true)) ⟨0, 100⟩ :=
    hlooked.next (.enter (by decide +kernel) (by decide +kernel) (by decide))
  have hrestarted := hentered.next
    (.observe (by decide +kernel) (by decide +kernel : inside.atBoundary = _))
  have himported := hrestarted.next (.apply (by decide +kernel) (by decide +kernel)
    (by decide +kernel : (engine.apply _ unit).1 = .ok .applied))
  have hsearched' := himported.next
    (.observe (by decide +kernel) (by decide +kernel : inside.atBoundary = _))
  have hspent' := hsearched'.next (.work (by decide +kernel : _ = Request.addWork 100))
  have hlooked' := hspent'.next
    (.observe (by decide +kernel) (by decide +kernel : atEnd.atBoundary = _))
  have hentered' : engine.Driven _ _ 10
      (engine.resume (engine.advised _ .relax) (.answer true)) ⟨0, 100⟩ :=
    hlooked'.next (.enter (by decide +kernel) (by decide +kernel) (by decide))
  have hrestarted' := hentered'.next
    (.observe (by decide +kernel) (by decide +kernel : inside.atBoundary = _))
  have hrefuted : engine.Driven _ _ 12 (engine.resume _ (.applied .conflict)) _ :=
    hrestarted'.next (.apply (by decide +kernel) (by decide +kernel)
      (by decide +kernel : (engine.apply _ negation).1 = .ok .conflict))
  have hscript := (follows_script (s := attentive) ⟨by decide, by decide, by decide⟩
    (by decide)).2.1 source _ _ _ _ (by decide) hrefuted
  exact ⟨source, _, _, hrefuted, by decide +kernel, hscript, by decide +kernel, by decide +kernel⟩

end Simulated

end ClauseExchange
