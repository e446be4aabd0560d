import ClauseExchange.Proofs.Exchange.Clock
import ClauseExchange.Proofs.Exchange.GraceWindow

/-!
# How an engine is driven

Of an exchange an engine sees only what its worker does with its requests. `Engine.Served` lists
what that can be: the worker keeps a clock of the engine's work, and everything else is left open,
such as the clauses that come from other workers, the advice, the lengths of later periods and the
decisions to stop. `Engine.Driven` is a run of an engine on its own against any such worker.

What holds of every engine that is driven holds in every exchange, under every schedule: a worker
serves its engine (`Runner.Drives.step`), and once the engine has concluded nothing touches it any
more.

* `Exchange.Fresh.drives_follow` says that the workers of an exchange drive their engines.
-/

namespace ClauseExchange

/-- What a worker's clock shows of the present period. -/
structure Clock where
  /-- The work done in the period. -/
  work : Nat
  /-- The length of the period. -/
  length : Nat
  deriving DecidableEq, Repr

/-- The clock of a worker. -/
def Worker.clock (w : Worker) : Clock := ⟨w.work, w.periodLength⟩

variable {σ : Type}

namespace Engine

/-- The engine once it has been given an advice. -/
def advised (E : Engine σ) (e : σ) : Advice → σ
  | .keep => e
  | .relax => (E.relax e).2
  | .tighten => (E.tighten e).2

/-- What a worker with a clock can do with the engine's request. -/
inductive Served (E : Engine σ) (e : σ) (c : Clock) : σ → Clock → Prop
  | observe {view : WorkerView} (hreq : E.request e = .observe)
      (hview : view.atBoundary = decide (c.length ≤ c.work)) :
      Served E e c (E.resume e (.seen view)) c
  | work {units : Nat} (hreq : E.request e = .addWork units) :
      Served E e c (E.resume e .done) { c with work := Word.satAdd c.work units }
  | offer {clause : Clause} {quality : Nat} (hreq : E.request e = .exportCandidate clause quality) :
      Served E e c (E.resume e .done) c
  /-- The period has work left. -/
  | pass (hreq : E.request e = .checkPeriod) (hleft : c.work < c.length) :
      Served E e c (E.resume e (.answer true)) c
  /-- The next period is entered. -/
  | enter {advice : Advice} {length : Nat} (hreq : E.request e = .checkPeriod)
      (hused : c.length ≤ c.work) (hlength : 1 ≤ length) :
      Served E e c (E.resume (E.advised e advice) (.answer true)) ⟨c.work - c.length, length⟩
  /-- The engine is told to stop, perhaps in the next period. -/
  | stop {advice : Advice} {c' : Clock} (hreq : E.request e = .checkPeriod) :
      Served E e c (E.resume (E.advised e advice) (.answer false)) c'
  | ask {yes : Bool} (hreq : E.request e = .shouldApply) :
      Served E e c (E.resume e (.answer yes)) c
  | take {batch : Batch} (hreq : E.request e = .takeImported)
      (hunits : ∀ u ∈ batch.units, u.isUnit = true) :
      Served E e c (E.resume e (.taken batch)) c
  | apply {batch : Batch} {outcome : ApplyOutcome} (hreq : E.request e = .applyImported)
      (hunits : ∀ u ∈ batch.units, u.isUnit = true) (hok : (E.apply e batch).1 = .ok outcome) :
      Served E e c (E.resume (E.apply e batch).2 (.applied outcome)) c
  /-- There is nothing to apply. -/
  | spare (hreq : E.request e = .applyImported) :
      Served E e c (E.resume e (.applied .applied)) c

/-- From state `e₀` and clock `c₀` an engine comes to a state and a clock by `n` requests. -/
inductive Driven (E : Engine σ) (e₀ : σ) (c₀ : Clock) : Nat → σ → Clock → Prop
  | start : Driven E e₀ c₀ 0 e₀ c₀
  | next {n : Nat} {e e' : σ} {c c' : Clock} (h : Driven E e₀ c₀ n e c)
      (hserved : E.Served e c e' c') : Driven E e₀ c₀ (n + 1) e' c'

/-- What has become of an engine and a clock in the course of a boundary. -/
inductive Spans (E : Engine σ) (e : σ) (c : Clock) : Stage → σ → Clock → Prop
  | exporting {d : Drain} (hused : c.length ≤ c.work) : Spans E e c (.exporting d) e c
  | due {stage : Stage} {advice : Advice} (hused : c.length ≤ c.work)
      (hdue : stage.isDue = true) (hadvised : ∀ d, stage ≠ .exporting d) :
      Spans E e c stage (E.advised e advice) c
  | entered {stage : Stage} {advice : Advice} {length : Nat} (hused : c.length ≤ c.work)
      (hlength : 1 ≤ length) (hdue : stage.isDue = false) :
      Spans E e c stage (E.advised e advice) ⟨c.work - c.length, length⟩
  | passed (hleft : c.work < c.length) : Spans E e c (.answered true) e c
  | stopped : Spans E e c (.answered false) e c

/-- At the end of a boundary the engine's check is served. -/
theorem Spans.served {E : Engine σ} {e e' : σ} {c c' : Clock} {goOn : Bool}
    (h : E.Spans e c (.answered goOn) e' c') (hreq : E.request e = .checkPeriod) :
    E.Served e c (E.resume e' (.answer goOn)) c' := by
  cases h with
  | due _ hdue => cases hdue
  | entered hused hlength =>
    cases goOn with
    | true => exact .enter hreq hused hlength
    | false => exact .stop hreq
  | passed hleft => exact .pass hreq hleft
  | stopped =>
    show E.Served e c (E.resume (E.advised e .keep) (.answer false)) c
    exact .stop hreq

end Engine

/-! ## In a boundary -/

section Boundary

variable {E : Engine σ} {e : σ} {c : Clock} {p : Post σ} {s : Shared} {b : Boundary}

theorem Worker.Still.clock_eq {w w' : Worker} (h : w.Still w') : w'.clock = w.clock := by
  rw [Worker.clock, h.work_eq, h.length_eq, Worker.clock]

theorem Post.engine_follow (E : Engine σ) (p : Post σ) (advice : Advice) :
    (p.follow E advice).2.engine = E.advised p.engine advice := by cases advice <;> rfl

theorem Post.exists_advised (E : Engine σ) (p : Post σ) (conflicts : Nat) (d : Drain) :
    ∃ advice, (p.regulate E conflicts d).2.engine = E.advised p.engine advice :=
  ⟨_, engine_follow E _ _⟩

/-- While the staged clauses are sorted the engine is left alone, and after that it gets an
advice. -/
theorem Boundary.spans_exporting {d : Drain} (hb : b.stage = .exporting d)
    (hused : p.worker.clock.length ≤ p.worker.clock.work) {stage : Stage} {p' : Post σ} {s' : Shared}
    (hstep : b.step E p s = .moved stage p' s') :
    E.Spans p.engine p.worker.clock stage p'.engine p'.worker.clock := by
  have hclock : p'.worker.clock = p.worker.clock := by
    have hkept := Runner.kept_boundary_step E s b p (by simp [hb])
    rw [hstep] at hkept
    exact hkept.clock_eq
  rw [hclock]
  unfold step stepExporting at hstep
  rw [hb] at hstep
  dsimp only at hstep
  split at hstep
  · rename_i outbox _
    obtain ⟨advice, hadvised⟩ :=
      Post.exists_advised E { p with worker := { p.worker with outbox } } b.counters.conflicts d
    split at hstep <;> rename_i heq <;> rw [heq] at hadvised <;> cases hstep
    rw [hadvised]
    exact .due hused rfl (fun _ => Stage.noConfusion)
  · cases hstep
    exact .exporting hused
  · split at hstep <;> cases hstep
    exact .exporting hused

/-- From then on the engine is left alone. -/
theorem Boundary.engine_step (hexporting : ∀ d, b.stage ≠ .exporting d) :
    (b.step E p s).post.engine = p.engine := by
  unfold step
  cases hb : b.stage with
  | exporting d => exact absurd hb (hexporting d)
  | advancing =>
    dsimp only [stepAdvancing]
    split
    · rfl
    · split <;> rfl
  | fetching offset t =>
    dsimp only [stepFetching]
    split
    · split <;> rfl
    · rfl
  | reading offset t q =>
    dsimp only [stepReading]
    split
    · rfl
    · split
      · rfl
      · split <;> rfl
  | acknowledging offset t q =>
    dsimp only [stepAcknowledging]
    split <;> rfl
  | averaging t =>
    dsimp only [stepAveraging]
    split
    · split
      · rfl
      · split <;> rfl
    · rfl
  | entering length =>
    dsimp only [stepEntering]
    split <;> rfl
  | deciding => rfl
  | answered goOn => rfl

/-- Until the next period is entered a boundary stays due, and sorts no more clauses. -/
theorem Boundary.isDue_step (hdue : b.stage.isDue = true) (hexporting : ∀ d, b.stage ≠ .exporting d)
    (hentering : ∀ length, b.stage ≠ .entering length) {stage : Stage} {p' : Post σ} {s' : Shared}
    (hstep : b.step E p s = .moved stage p' s') :
    stage.isDue = true ∧ ∀ d, stage ≠ .exporting d := by
  unfold step at hstep
  cases hb : b.stage with
  | exporting d => exact absurd hb (hexporting d)
  | entering length => exact absurd hb (hentering length)
  | deciding | answered =>
    rw [hb] at hdue
    cases hdue
  | advancing =>
    simp only [hb, stepAdvancing] at hstep
    split at hstep
    · cases hstep
    · split at hstep <;> cases hstep
      split <;> exact ⟨rfl, fun _ => Stage.noConfusion⟩
  | fetching offset t =>
    simp only [hb, stepFetching] at hstep
    split at hstep
    · split at hstep <;> cases hstep <;> exact ⟨rfl, fun _ => Stage.noConfusion⟩
    · cases hstep
      exact ⟨rfl, fun _ => Stage.noConfusion⟩
  | reading offset t q =>
    simp only [hb, stepReading] at hstep
    split at hstep
    · cases hstep
      exact ⟨rfl, fun _ => Stage.noConfusion⟩
    · split at hstep
      · cases hstep
        split <;> exact ⟨rfl, fun _ => Stage.noConfusion⟩
      · split at hstep <;> cases hstep
        exact ⟨rfl, fun _ => Stage.noConfusion⟩
  | acknowledging offset t q =>
    simp only [hb, stepAcknowledging] at hstep
    split at hstep <;> cases hstep
    exact ⟨rfl, fun _ => Stage.noConfusion⟩
  | averaging t =>
    simp only [hb, stepAveraging] at hstep
    split at hstep
    · split at hstep
      · cases hstep
      · split at hstep <;> cases hstep
        exact ⟨rfl, fun _ => Stage.noConfusion⟩
    · cases hstep
      exact ⟨rfl, fun _ => Stage.noConfusion⟩

/-- Every step of a boundary goes on as `Engine.Spans` says. -/
theorem Boundary.spans_step (h : E.Spans e c b.stage p.engine p.worker.clock)
    (hanswered : ∀ goOn, b.stage ≠ .answered goOn)
    (hlength : ∀ length, b.stage = .entering length → 1 ≤ length) {stage : Stage} {p' : Post σ}
    {s' : Shared} (hstep : b.step E p s = .moved stage p' s') :
    E.Spans e c stage p'.engine p'.worker.clock := by
  have hengine := engine_step (E := E) (p := p) (s := s) (b := b)
  have hkept := Runner.kept_boundary_step E s b p
  rw [hstep] at hengine hkept
  generalize hb : b.stage = now at h
  generalize he : p.engine = e' at h
  generalize hc : p.worker.clock = c' at h
  cases h with
  | exporting hused =>
    rw [← hc] at hused
    rw [← hc, ← he]
    exact spans_exporting hb hused hstep
  | due hused hdue hadvised =>
    have hengine : p'.engine = _ := (hengine (by rw [hb]; exact hadvised)).trans he
    by_cases hentering : ∃ length, b.stage = .entering length
    · obtain ⟨length, hentering⟩ := hentering
      simp only [step, hentering, stepEntering] at hstep
      split at hstep
      · cases hstep
      · rename_i w hw
        cases hstep
        have hclock : w.clock = ⟨c.work - c.length, length⟩ := by
          rw [Worker.enter_eq_ok hw, ← hc]
          rfl
        show E.Spans e c .deciding p.engine w.clock
        rw [he, hclock]
        exact .entered hused (hlength length hentering) rfl
    · push Not at hentering
      have hclock : p'.worker.clock = _ := (hkept hentering).clock_eq.trans hc
      obtain ⟨hdue', hadvised'⟩ := isDue_step (by rw [hb]; exact hdue) (by rw [hb]; exact hadvised)
        hentering hstep
      rw [hengine, hclock]
      exact .due hused hdue' hadvised'
  | entered hused hlength hdue =>
    cases hb' : b.stage with
    | answered goOn => exact absurd hb' (hanswered goOn)
    | deciding =>
      have hengine : p'.engine = _ := (hengine (by simp [hb'])).trans he
      have hclock : p'.worker.clock = _ := (hkept (by simp [hb'])).clock_eq.trans hc
      simp only [step, hb', stepDeciding] at hstep
      rw [hengine, hclock]
      cases hstep
      exact .entered hused hlength rfl
    | _ =>
      rw [← hb, hb'] at hdue
      cases hdue
  | passed => exact absurd hb (hanswered true)
  | stopped => exact absurd hb (hanswered false)

end Boundary

/-! ## In the run of a worker -/

/-- A worker drives its engine, which has started in state `e₀` with clock `c₀`. -/
structure Runner.Drives (E : Engine σ) (e₀ : σ) (c₀ : Clock) (r : Runner σ) : Prop where
  searching : r.control = .ready ∨ r.control = .searching →
    ∃ n, E.Driven e₀ c₀ n r.engine r.worker.clock
  boundary : ∀ b, r.control = .boundary b → ∃ n e c, E.Driven e₀ c₀ n e c ∧
    E.request e = .checkPeriod ∧ E.Spans e c b.stage r.engine r.worker.clock
  /-- The engine stays as it was when it concluded. -/
  concluded : ∀ v, r.control.verdict? = some v → E.request r.engine = .conclude v ∧
    ∃ n c, E.Driven e₀ c₀ n r.engine c

/-- The clauses that wait for the engine as units are units, unless a rule has been broken. -/
def Runner.HoldsUnits (r : Runner σ) : Prop :=
  r.control.isBroken = false → ∀ u ∈ r.worker.pending.units, u.isUnit = true

theorem Batch.isUnit_append {b : Batch} (h : ∀ u ∈ b.units, u.isUnit = true) (cs : List Clause) :
    ∀ u ∈ (b.append cs).units, u.isUnit = true := by
  intro u hu
  rw [← Array.mem_toList_iff, toList_units_append, List.mem_append, List.mem_filter] at hu
  rcases hu with hu | ⟨-, hu⟩
  · exact h u (Array.mem_toList_iff.1 hu)
  · exact hu

namespace Runner

variable {E : Engine σ} {e₀ : σ} {c₀ : Clock} {r : Runner σ} {s : Shared}

theorem Step.holdsUnits {r' : Runner σ} {c c' : Coordinator} {events : List Event}
    (h : r.Step c events r' c') (hunits : r.HoldsUnits) : r'.HoldsUnits := by
  intro hgood
  have hbefore : ∀ u ∈ r.worker.pending.units, u.isUnit = true := by
    refine hunits ?_
    cases hbroken : r.control.isBroken with
    | false => rfl
    | true => rw [h.isBroken hbroken] at hgood; cases hgood
  have hquiet {w : Worker} (hw : r.worker.Quiet w) : ∀ u ∈ w.pending.units, u.isUnit = true := by
    rw [hw.pending_eq]
    exact hbefore
  cases h with
  | serve _ hw => exact hquiet hw
  | sort _ _ hw => exact hquiet hw
  | publish _ _ hw => exact hquiet hw
  | advance _ _ hw => exact hquiet hw
  | average _ _ hw => exact hquiet hw
  | give _ hw => exact hquiet hw
  | take => exact fun u hu => absurd hu (Array.not_mem_empty u)
  | read => exact Batch.isUnit_append hbefore _
  | enter _ _ _ _ _ _ hpending =>
    rw [hpending]
    exact hbefore
  | fail => cases hgood
  | _ => exact hbefore

theorem Drives.searched {n : Nat} (hr : r.control = .searching)
    (h : E.Driven e₀ c₀ n r.engine r.worker.clock) : r.Drives E e₀ c₀ where
  searching _ := ⟨n, h⟩
  boundary b hb := by cases hr.symm.trans hb
  concluded v hv := by
    rw [hr] at hv
    cases hv

theorem Drives.bounded {b : Boundary} {n : Nat} {e : σ} {c : Clock} (hr : r.control = .boundary b)
    (h : E.Driven e₀ c₀ n e c) (hreq : E.request e = .checkPeriod)
    (hspans : E.Spans e c b.stage r.engine r.worker.clock) : r.Drives E e₀ c₀ where
  searching hnot := by rcases hnot with hnot | hnot <;> cases hr.symm.trans hnot
  boundary b' hb' := by
    obtain rfl := Control.boundary.inj (hr.symm.trans hb')
    exact ⟨n, e, c, h, hreq, hspans⟩
  concluded v hv := by
    rw [hr] at hv
    cases hv

/-- On its way out a worker leaves its engine alone. -/
theorem Drives.left (hlate : r.control.isOver = true ∨ r.control.isBroken = true ∨
      r.control.verdict?.isSome = true)
    (h : ∀ v, r.control.verdict? = some v →
      E.request r.engine = .conclude v ∧ ∃ n c, E.Driven e₀ c₀ n r.engine c) :
    r.Drives E e₀ c₀ where
  searching hnot := by
    rcases hnot with hnot | hnot <;>
      · rw [hnot] at hlate
        simp [Control.isOver, Control.isBroken, Control.verdict?] at hlate
  boundary b hb := by
    rw [hb] at hlate
    simp [Control.isOver, Control.isBroken, Control.verdict?] at hlate
  concluded := h

theorem Drives.broken (h : r.control.isBroken = true) : r.Drives E e₀ c₀ := by
  refine .left (.inr (.inl h)) fun v hv => ?_
  unfold Control.verdict? at hv
  split at hv <;> rename_i hr <;> first | (rw [hr] at h; cases h) | cases hv

theorem Drives.ended {v : Verdict} {n : Nat} {c : Clock} (hv : r.control.verdict? = some v)
    (hreq : E.request r.engine = .conclude v) (h : E.Driven e₀ c₀ n r.engine c) :
    r.Drives E e₀ c₀ := by
  refine .left (.inr (.inr (by rw [hv]; rfl))) fun v' hv' => ?_
  obtain rfl := Option.some.inj (hv.symm.trans hv')
  exact ⟨hreq, n, c, h⟩

/-- Carrying out a request serves the engine. -/
theorem Drives.serve (h : r.Drives E e₀ c₀) (hunits : r.HoldsUnits) (hr : r.control = .searching)
    (times : PhaseTimes) : (r.serve E times).Drives E e₀ c₀ := by
  obtain ⟨n, hdriven⟩ := h.searching (.inr hr)
  have hunits := hunits (by rw [hr]; rfl)
  unfold Runner.serve
  cases hreq : E.request r.engine with
  | observe => exact .searched rfl (hdriven.next (.observe hreq rfl))
  | addWork units => exact .searched rfl (hdriven.next (.work hreq))
  | exportCandidate clause quality =>
    refine .searched (n := n + 1) rfl ?_
    show E.Driven e₀ c₀ _ _ (r.worker.exportCandidate clause quality).clock
    rw [(r.worker.kept_exportCandidate clause quality).clock_eq]
    exact hdriven.next (.offer hreq)
  | checkPeriod =>
    cases harrive : r.toPost.arrive E with
    | error f => exact .broken rfl
    | ok b =>
      refine .bounded rfl hdriven hreq ?_
      unfold Post.arrive at harrive
      split at harrive
      · cases harrive
        exact .stopped
      · split at harrive
        · cases hcounters : E.statistics r.engine with
          | error f =>
            rw [hcounters] at harrive
            cases harrive
          | ok counters =>
            rw [hcounters] at harrive
            cases harrive
            exact .exporting (of_decide_eq_true ‹_›)
        · cases harrive
          refine .passed (Nat.lt_of_not_le fun hle => ?_)
          exact absurd (decide_eq_true hle) ‹_›
  | shouldApply =>
    have hstill := r.worker.still_shouldApply
    rcases hask : r.worker.shouldApply with ⟨f | yes, w⟩
    · exact .broken rfl
    · rw [hask] at hstill
      refine .searched (n := n + 1) rfl ?_
      show E.Driven e₀ c₀ _ _ w.clock
      rw [hstill.clock_eq]
      exact hdriven.next (.ask hreq)
  | takeImported => exact .searched rfl (hdriven.next (.take hreq hunits))
  | applyImported =>
    unfold Post.applyImported Worker.takeImported
    dsimp only
    split
    · exact .broken rfl
    · rename_i outcome p heq
      split at heq
      · cases heq
        exact .searched rfl (hdriven.next (.spare hreq))
      · obtain ⟨hok, rfl⟩ := Prod.mk.inj heq
        exact .searched rfl (hdriven.next (.apply hreq hunits hok))
  | conclude verdict => exact .ended rfl hreq hdriven
  | fail f => exact .broken rfl

/-- Every step of a worker drives its engine. -/
theorem Drives.step (h : r.Drives E e₀ c₀) (hunits : r.HoldsUnits)
    (hlength : ∀ b length, r.control = .boundary b → b.stage = .entering length → 1 ≤ length) :
    (r.step E s).1.Drives E e₀ c₀ := by
  cases hr : r.control with
  | ready =>
    obtain ⟨n, hdriven⟩ := h.searching (.inl hr)
    unfold Runner.step settle
    rw [hr]
    dsimp only
    split
    · exact .broken rfl
    · exact .searched rfl hdriven
  | searching =>
    rw [step_searching E s hr]
    exact h.serve hunits hr _
  | boundary b =>
    obtain ⟨n, e, c, hdriven, hreq, hspans⟩ := h.boundary b hr
    by_cases hanswered : ∃ goOn, b.stage = .answered goOn
    · obtain ⟨goOn, hb⟩ := hanswered
      rw [hb] at hspans
      rw [step_answered E s hr hb]
      exact .searched rfl (hdriven.next (hspans.served hreq))
    · push Not at hanswered
      rw [step_boundary E s hr hanswered]
      cases hstep : b.step E r.toPost s with
      | failed f p s' => exact .broken rfl
      | moved stage p s' =>
        exact .bounded rfl hdriven hreq
          (Boundary.spans_step hspans hanswered (hlength b · hr) hstep)
  | reporting verdict | closing verdict =>
    obtain ⟨hreq, n, c, hdriven⟩ := h.concluded verdict (by rw [hr]; rfl)
    unfold Runner.step settle
    rw [hr]
    dsimp only
    split
    · exact .broken rfl
    · exact .ended rfl hreq hdriven
  | leaving ending =>
    have hconcluded := h.concluded
    rw [hr] at hconcluded
    unfold Runner.step
    rw [hr]
    cases ending with
    | concluded v => exact .left (.inr (.inr rfl)) hconcluded
    | broken f => exact .broken rfl
  | signingOff ending =>
    unfold Runner.step
    rw [hr]
    dsimp only
    unfold afterSignOff
    split
    · exact .broken rfl
    · cases ending with
      | concluded v =>
        obtain ⟨hreq, n, c, hdriven⟩ := h.concluded v (by rw [hr]; rfl)
        exact .ended rfl hreq hdriven
      | broken f => exact .broken rfl
  | handingIn verdict =>
    obtain ⟨hreq, n, c, hdriven⟩ := h.concluded verdict (by rw [hr]; rfl)
    unfold Runner.step
    rw [hr]
    dsimp only
    split
    · exact .broken rfl
    · rename_i hfinal
      obtain ⟨_, _, rfl⟩ := finalStatistics_eq_ok hfinal
      exact .ended rfl hreq hdriven
  | finished | panicked =>
    unfold Runner.step
    rw [hr]
    exact h

end Runner

namespace Exchange

variable {config : Config} {x : Exchange σ}

/-- Under every schedule the workers of an exchange drive their engines. -/
theorem Fresh.drives_follow (h : x.Fresh config) (hlength : 1 ≤ config.periodLength) (E : Engine σ)
    {w : Nat} {r₀ : Runner σ} (hr₀ : x.runners[w]? = some r₀) (t : List Nat) :
    ∃ r, (x.follow E t).runners[w]? = some r ∧ r.Drives E r₀.engine ⟨0, config.periodLength⟩ := by
  have hw := h.standing.lt_numWorkers hr₀
  have hworker := h.worker hr₀
  have hclock : r₀.worker.clock = ⟨0, config.periodLength⟩ := by
    rw [hworker]
    rfl
  have hready := h.control_eq w r₀ hr₀
  obtain ⟨q, hq, hdrives, -⟩ := h.standing.record_follow E (fun _ _ => ([] : List Unit)) hr₀
    (P := fun _ q _ _ => q.Drives E r₀.engine ⟨0, config.periodLength⟩ ∧ q.HoldsUnits)
    (by
      refine ⟨⟨fun _ => ⟨0, ?_⟩, fun b hb => ?_, fun v hv => ?_⟩, fun _ => ?_⟩
      · rw [hclock]
        exact .start
      · cases hready.symm.trans hb
      · rw [hready] at hv
        cases hv
      · rw [hworker]
        exact fun u hu => absurd hu (Array.not_mem_empty u))
    (fun t q _ _ hq hbefore => by
      have hstands := h.standing.follow E t
      have hid := (hstands.runner w q hq).id_eq
      have htimed := h.timed_follow hlength E t hq
      refine ⟨hbefore.1.step hbefore.2 htimed.entering_pos, ?_⟩
      exact (q.step_cases E _ (by rw [hid]; exact hstands.lt_mailboxes hw)).holdsUnits hbefore.2)
    (fun _ _ _ _ _ _ _ _ _ _ hbefore => hbefore) t
  exact ⟨q, hq, hdrives⟩

end Exchange

end ClauseExchange
