import ClauseExchange.Proofs.Exchange.Record
import Mathlib.Algebra.GroupWithZero.Nat

/-!
# The logical clock of a worker

A worker's clock shows its period, the length of that period, and the work done in it. Only two
steps of a run move it: the engine adds work, and a boundary enters the next period, which takes the
work of the period that ends off the counter.

* `Runner.changes_step` says what a step of a run does to the worker, and `Runner.ticks_step` that it
  does one of these two or leaves the clock alone.
* `Runner.Timed` is the account of a clock: all work is in the completed periods or on the counter.
* `Exchange.Fresh.timed_follow` says that the account is kept along every schedule.
* `Exchange.Fresh.handed_follow` says that a worker hands in its number and its period.
-/

namespace ClauseExchange

/-- Nothing of a worker's clock changes, nor of what its statistics show of it. -/
structure Worker.Still (w w' : Worker) : Prop where
  period_eq : w'.period = w.period
  length_eq : w'.periodLength = w.periodLength
  work_eq : w'.work = w.work
  number_eq : w'.stats.worker = w.stats.worker
  periods_eq : w'.stats.periods = w.stats.periods

/-- Nothing changes of a worker's account of forced applications, nor of the conflicts that its
periods aim at. -/
structure Worker.Steady (w w' : Worker) : Prop where
  lastForced_eq : w'.lastForced = w.lastForced
  forced_eq : w'.stats.forcedApplications = w.stats.forcedApplications
  conflicts_eq : w'.pace.conflicts = w.pace.conflicts

/-- Nothing of all this changes. -/
structure Worker.Kept (w w' : Worker) : Prop extends w.Still w', w.Steady w'

namespace Worker

theorem Still.refl (w : Worker) : w.Still w := ⟨rfl, rfl, rfl, rfl, rfl⟩

theorem Steady.refl (w : Worker) : w.Steady w := ⟨rfl, rfl, rfl⟩

theorem Kept.refl (w : Worker) : w.Kept w := ⟨.refl w, .refl w⟩

theorem kept_exportCandidate (w : Worker) (c : Clause) (quality : Nat) :
    w.Kept (w.exportCandidate c quality) := by
  unfold exportCandidate
  split <;> exact ⟨⟨rfl, rfl, rfl, rfl, rfl⟩, ⟨rfl, rfl, rfl⟩⟩

theorem still_shouldApply (w : Worker) : w.Still w.shouldApply.2 := by
  unfold shouldApply
  split
  · exact .refl w
  · split <;> exact ⟨rfl, rfl, rfl, rfl, rfl⟩

end Worker

theorem Worker.enter_eq_ok {w w' : Worker} {length : Nat} (h : w.enter length = .ok w') :
    w' = { w with
      work := w.work - w.periodLength
      period := w.period + 1
      periodLength := length
      stats := { w.stats with periods := w.stats.periods + 1 } } := by
  unfold enter at h
  split at h
  · cases h
  · rename_i period hperiod
    obtain ⟨rfl, -⟩ := Word.add_eq_ok_iff.1 hperiod
    exact (Except.ok.inj h).symm

variable {σ : Type}

/-- Whether a stage comes before the next period is entered. -/
def Stage.isDue : Stage → Bool
  | .deciding | .answered _ => false
  | _ => true

/-- The worker and the engine after a step of a boundary. -/
def Progression.post : Progression σ → Post σ
  | .moved _ p _ => p
  | .failed _ p _ => p

/-- The conflicts that periods aim at never change. -/
theorem Pace.conflicts_update (p : Pace) (length conflicts : Nat) :
    (p.update length conflicts).2.conflicts = p.conflicts := by
  unfold update
  split
  · rfl
  · split
    · rfl
    · dsimp only
      split
      · rfl
      · dsimp only
        split <;> rfl

namespace Runner

/-- The units of work that the next step of a runner adds. -/
def worked (E : Engine σ) (r : Runner σ) : List Nat :=
  match r.control with
  | .searching =>
    match E.request r.engine with
    | .addWork units => [units]
    | _ => []
  | _ => []

/-- What a step does to the clock, with the units of work that it adds. -/
inductive Ticks (r : Runner σ) (added : List Nat) (w : Worker) : Prop
  | still (hadded : added = []) (h : r.worker.Still w)
  | work (units : Nat) (hadded : added = [units]) (hr : r.control = .searching)
      (hw : w = r.worker.addWork units)
  | enter {b : Boundary} {length : Nat} (hadded : added = []) (hr : r.control = .boundary b)
      (hb : b.stage = .entering length) (hw : r.worker.enter length = .ok w)

/-- What a step does to a worker, as far as its clock and its forced applications go. -/
inductive Changes (E : Engine σ) (r : Runner σ) (w : Worker) : Prop
  | keep (hworked : r.worked E = []) (h : r.worker.Kept w)
  | ask (hr : r.control = .searching) (hreq : E.request r.engine = .shouldApply)
      (hw : w = r.worker.shouldApply.2)
  | work (units : Nat) (hr : r.control = .searching) (hreq : E.request r.engine = .addWork units)
      (hw : w = r.worker.addWork units)
  | enter {b : Boundary} {length : Nat} (hr : r.control = .boundary b)
      (hb : b.stage = .entering length) (hw : r.worker.enter length = .ok w)

variable (E : Engine σ) (r : Runner σ) (s : Shared)

theorem worked_eq_nil (hr : r.control ≠ .searching) : r.worked E = [] := by
  unfold worked
  split
  · exact absurd ‹_› hr
  · rfl

theorem changes_serve (hr : r.control = .searching) (times : PhaseTimes) :
    r.Changes E (r.serve E times).worker := by
  have hworked (h : ∀ units, E.request r.engine ≠ .addWork units) : r.worked E = [] := by
    unfold worked
    rw [hr]
    dsimp only
    split
    · exact absurd ‹_› (h _)
    · rfl
  unfold serve
  cases hreq : E.request r.engine with
  | addWork units => exact .work units hr hreq rfl
  | observe => exact .keep (hworked (by simp [hreq])) (.refl _)
  | exportCandidate c quality =>
    exact .keep (hworked (by simp [hreq])) (r.worker.kept_exportCandidate c quality)
  | checkPeriod =>
    refine .keep (hworked (by simp [hreq])) ?_
    dsimp only
    split <;> exact .refl _
  | shouldApply =>
    refine .ask hr hreq ?_
    dsimp only
    split <;> rename_i heq <;> rw [heq] <;> rfl
  | takeImported => exact .keep (hworked (by simp [hreq])) ⟨⟨rfl, rfl, rfl, rfl, rfl⟩, ⟨rfl, rfl, rfl⟩⟩
  | applyImported =>
    have hw := Post.worker_applyImported E r.toPost
    have hkept : r.worker.Kept (r.toPost.applyImported E).2.worker := by
      rw [hw]
      exact ⟨⟨rfl, rfl, rfl, rfl, rfl⟩, ⟨rfl, rfl, rfl⟩⟩
    refine .keep (hworked (by simp [hreq])) ?_
    dsimp only
    split <;> rename_i heq <;> rw [heq] at hkept <;> exact hkept
  | conclude verdict => exact .keep (hworked (by simp [hreq])) (.refl _)
  | fail f => exact .keep (hworked (by simp [hreq])) (.refl _)

theorem kept_regulate (p : Post σ) (conflicts : Nat) (d : Drain) :
    p.worker.Kept (p.regulate E conflicts d).2.worker := by
  unfold Post.regulate
  dsimp only
  rw [Post.worker_follow]
  exact ⟨⟨rfl, rfl, rfl, rfl, rfl⟩, ⟨rfl, rfl, rfl⟩⟩

/-- Only entering a period touches the clock within a boundary. -/
theorem kept_boundary_step (b : Boundary) (p : Post σ)
    (hb : ∀ length, b.stage ≠ .entering length) :
    p.worker.Kept (b.step E p s).post.worker := by
  unfold Boundary.step
  cases hstage : b.stage with
  | exporting d =>
    dsimp only [Boundary.stepExporting]
    split
    · rename_i outbox _
      have hkept := kept_regulate E ⟨{ p.worker with outbox }, p.engine⟩ b.counters.conflicts d
      split <;> rename_i heq <;> rw [heq] at hkept <;>
        exact ⟨⟨hkept.period_eq, hkept.length_eq, hkept.work_eq, hkept.number_eq,
          hkept.periods_eq⟩, ⟨hkept.lastForced_eq, hkept.forced_eq, hkept.conflicts_eq⟩⟩
    · exact ⟨⟨rfl, rfl, rfl, rfl, rfl⟩, ⟨rfl, rfl, rfl⟩⟩
    · split <;> exact ⟨⟨rfl, rfl, rfl, rfl, rfl⟩, ⟨rfl, rfl, rfl⟩⟩
  | advancing =>
    have hconflicts := p.worker.pace.conflicts_update p.worker.periodLength b.counters.conflicts
    dsimp only [Boundary.stepAdvancing]
    split <;> rename_i heq <;> rw [heq] at hconflicts
    · exact ⟨⟨rfl, rfl, rfl, rfl, rfl⟩, ⟨rfl, rfl, hconflicts⟩⟩
    · split <;> exact ⟨⟨rfl, rfl, rfl, rfl, rfl⟩, ⟨rfl, rfl, hconflicts⟩⟩
  | fetching offset t =>
    dsimp only [Boundary.stepFetching]
    split
    · split <;> exact .refl _
    · exact .refl _
  | reading offset t q =>
    dsimp only [Boundary.stepReading]
    split
    · exact .refl _
    · split
      · exact .refl _
      · split <;> exact ⟨⟨rfl, rfl, rfl, rfl, rfl⟩, ⟨rfl, rfl, rfl⟩⟩
  | acknowledging offset t q =>
    dsimp only [Boundary.stepAcknowledging]
    split <;> exact .refl _
  | averaging t =>
    dsimp only [Boundary.stepAveraging]
    split
    · split
      · exact ⟨⟨rfl, rfl, rfl, rfl, rfl⟩, ⟨rfl, rfl, rfl⟩⟩
      · split <;> exact ⟨⟨rfl, rfl, rfl, rfl, rfl⟩, ⟨rfl, rfl, rfl⟩⟩
    · exact ⟨⟨rfl, rfl, rfl, rfl, rfl⟩, ⟨rfl, rfl, rfl⟩⟩
  | entering length => exact absurd hstage (hb length)
  | deciding => exact ⟨⟨rfl, rfl, rfl, rfl, rfl⟩, ⟨rfl, rfl, rfl⟩⟩
  | answered goOn => exact .refl _

/-- What a step does to a worker: nothing that counts here, or the engine has asked whether to apply
its imports or has worked, or the next period is entered. -/
theorem changes_step : r.Changes E (r.step E s).1.worker := by
  by_cases hsearching : r.control = .searching
  · rw [step_searching E s hsearching]
    exact changes_serve E r hsearching _
  have hworked := worked_eq_nil E r hsearching
  cases hr : r.control with
  | searching => exact absurd hr hsearching
  | boundary b =>
    by_cases hentering : ∃ length, b.stage = .entering length
    · obtain ⟨length, hb⟩ := hentering
      rw [step_boundary E s hr (by simp [hb])]
      unfold Boundary.step Boundary.stepEntering
      rw [hb]
      dsimp only
      cases hw : r.worker.enter length with
      | error f => exact .keep hworked (.refl _)
      | ok w => exact .enter hr hb hw
    · push Not at hentering
      by_cases hanswered : ∃ goOn, b.stage = .answered goOn
      · obtain ⟨goOn, hb⟩ := hanswered
        rw [step_answered E s hr hb]
        exact .keep hworked (.refl _)
      · push Not at hanswered
        have hkept := kept_boundary_step E s b r.toPost hentering
        rw [step_boundary E s hr hanswered]
        refine .keep hworked ?_
        cases hstep : b.step E r.toPost s <;> rw [hstep] at hkept <;> exact hkept
  | ready | reporting | closing =>
    refine .keep hworked ?_
    unfold step settle
    rw [hr]
    dsimp only
    split <;> exact .refl _
  | leaving | signingOff | finished | panicked =>
    unfold step
    rw [hr]
    exact .keep hworked (.refl _)
  | handingIn verdict =>
    refine .keep hworked ?_
    unfold step
    rw [hr]
    dsimp only
    split <;> exact .refl _

/-- What a step does to a worker's clock: nothing, or the engine has worked, or the next period is
entered. -/
theorem ticks_step : r.Ticks (r.worked E) (r.step E s).1.worker := by
  cases changes_step E r s with
  | keep hworked h => exact .still hworked h.toStill
  | ask hr hreq hw =>
    rw [hw]
    exact .still (by simp [worked, hr, hreq]) r.worker.still_shouldApply
  | work units hr hreq hw => exact .work units (by simp [worked, hr, hreq]) hr hw
  | enter hr hb hw => exact .enter (worked_eq_nil E r (by simp [hr])) hr hb hw

/-- Only a question of the engine about it changes a worker's account of forced applications. -/
theorem steady_step (h : r.control = .searching → E.request r.engine ≠ .shouldApply) :
    r.worker.Steady (r.step E s).1.worker := by
  cases changes_step E r s with
  | keep _ hkept => exact hkept.toSteady
  | ask hr hreq => exact absurd hreq (h hr)
  | work units _ _ hw =>
    rw [hw]
    exact ⟨rfl, rfl, rfl⟩
  | enter _ _ hw =>
    rw [Worker.enter_eq_ok hw]
    exact ⟨rfl, rfl, rfl⟩

/-- A worker arrives at a boundary only when the work of its period is used up. -/
theorem atBoundary_of_serve {times : PhaseTimes} {b : Boundary}
    (hb : (r.serve E times).control = .boundary b) (hdue : b.stage.isDue = true) :
    (r.serve E times).worker = r.worker ∧ r.worker.atBoundary = true := by
  unfold serve at hb ⊢
  cases hreq : E.request r.engine with
  | checkPeriod =>
    rw [hreq] at hb
    unfold Post.arrive at hb ⊢
    dsimp only at hb ⊢
    split at hb
    · cases hb
    · rename_i b' harrive
      cases hb
      split at harrive
      · cases harrive
        cases hdue
      · split at harrive
        · exact ⟨rfl, ‹_›⟩
        · cases harrive
          cases hdue
  | shouldApply =>
    rw [hreq] at hb
    dsimp only at hb
    split at hb <;> cases hb
  | applyImported =>
    rw [hreq] at hb
    dsimp only at hb
    split at hb <;> cases hb
  | _ =>
    rw [hreq] at hb
    cases hb

/-- A boundary has not entered the next period yet if it has just begun, or is the same or further
on than before. -/
theorem Step.due_cases {r r' : Runner σ} {c c' : Coordinator} {events : List Event}
    (h : Step r c events r' c') {b' : Boundary} (hr' : r'.control = .boundary b')
    (hdue : b'.stage.isDue = true) :
    r' = r ∨ r.control = .searching ∨ ∃ b, r.control = .boundary b ∧ b.stage.isDue = true ∧
      ∀ length, b.stage ≠ .entering length := by
  cases h with
  | stay => exact .inl rfl
  | arrive hr | pass hr | take hr => exact .inr (.inl hr)
  | enter => cases hr'; cases hdue
  | decide => cases hr'; cases hdue
  | signOff _ _ hk => rcases hk with ⟨f, rfl⟩ | ⟨verdict, -, rfl⟩ <;> cases hr'
  | handIn _ hk => rcases hk with ⟨f, rfl⟩ | ⟨stats, -, rfl⟩ <;> cases hr'
  | sort hr hb | publish hr hb | advance hr hb | skip hr hb | fetch hr hb | survey hr hb
  | passOver hr hb | read hr hb | acknowledge hr hb | average hr hb =>
    exact .inr (.inr ⟨_, hr, by rw [hb]; rfl, by simp [hb]⟩)
  | _ => cases hr'

/-- A length that is about to be entered is the present one, in the first periods, or follows from the
counts of the boundary. -/
theorem Step.entering_cases {r r' : Runner σ} {c c' : Coordinator} {events : List Event}
    (h : Step r c events r' c') {b' : Boundary} {length : Nat} (hr' : r'.control = .boundary b')
    (hb' : b'.stage = .entering length) :
    r' = r ∧ c' = c ∨ r.worker.Quiet r'.worker ∧ ∃ b, r.control = .boundary b ∧
      (b.stage = .advancing ∧ r.worker.period < c.margin ∧ length = r.worker.periodLength ∨
        ∃ t, b.stage = .averaging t ∧ length = r.worker.nextLength c t) := by
  cases h with
  | stay => exact .inl ⟨rfl, rfl⟩
  | advance hr hb hq =>
    cases hr'
    dsimp only at hb'
    split at hb'
    · rename_i hperiod
      rw [hq.period_eq] at hperiod
      exact .inr ⟨hq, _, hr, .inl ⟨hb, hperiod, hq.length_eq ▸ (Stage.entering.inj hb').symm⟩⟩
    · cases hb'
  | average hr hb hq hlength =>
    cases hr'
    cases hb'
    exact .inr ⟨hq, _, hr, .inr ⟨_, hb, hlength⟩⟩
  | sort _ _ _ hstage =>
    cases hr'
    rcases hstage with rfl | ⟨d, rfl⟩ <;> cases hb'
  | take _ hk => rcases hk with rfl | ⟨f, rfl⟩ <;> cases hr'
  | signOff _ _ hk => rcases hk with ⟨f, rfl⟩ | ⟨verdict, -, rfl⟩ <;> cases hr'
  | handIn _ hk => rcases hk with ⟨f, rfl⟩ | ⟨stats, -, rfl⟩ <;> cases hr'
  | _ => cases hr' <;> cases hb'

/-- A run is over with statistics only once they have been handed in. -/
theorem Step.finished_cases {r r' : Runner σ} {c c' : Coordinator} {events : List Event}
    (h : Step r c events r' c') {statistics : WorkerStatistics}
    (hr' : r'.control = .finished statistics) :
    r' = r ∨ ∃ verdict, r.control = .handingIn verdict := by
  cases h with
  | stay => exact .inl rfl
  | handIn hr => exact .inr ⟨_, hr⟩
  | take _ hk => rcases hk with rfl | ⟨f, rfl⟩ <;> cases hr'
  | signOff _ _ hk => rcases hk with ⟨f, rfl⟩ | ⟨verdict, -, rfl⟩ <;> cases hr'
  | _ => cases hr'

/-- The final statistics are those of the worker, apart from what they tell of its engine. -/
theorem finalStatistics_eq_ok {E : Engine σ} {r : Runner σ} {verdict : Verdict}
    {times : PhaseTimes} {statistics : WorkerStatistics}
    (h : r.finalStatistics E verdict times = .ok statistics) :
    ∃ engine exportThreshold,
      statistics = { r.worker.statistics times with verdict, engine, exportThreshold } := by
  unfold finalStatistics at h
  cases hcounters : E.statistics r.engine with
  | error f =>
    rw [hcounters] at h
    cases h
  | ok counters =>
    rw [hcounters] at h
    dsimp only at h
    cases hthreshold : E.exportThreshold r.engine with
    | error f =>
      rw [hthreshold] at h
      cases h
    | ok threshold =>
      rw [hthreshold] at h
      exact ⟨counters, threshold, (Except.ok.inj h).symm⟩

theorem step_handingIn (E : Engine σ) {r : Runner σ} {s : Shared} {verdict : Verdict}
    (hr : r.control = .handingIn verdict) {statistics : WorkerStatistics}
    (hstatistics : (r.step E s).1.control = .finished statistics) :
    (r.step E s).1.worker = r.worker ∧
      r.finalStatistics E verdict (s.times r.worker.id) = .ok statistics := by
  unfold step at hstatistics ⊢
  rw [hr] at hstatistics ⊢
  dsimp only at hstatistics ⊢
  cases hfinal : r.finalStatistics E verdict (s.times r.worker.id) with
  | error f =>
    rw [hfinal] at hstatistics
    cases hstatistics
  | ok statistics' =>
    rw [hfinal] at hstatistics
    obtain rfl := Control.finished.inj hstatistics
    exact ⟨rfl, rfl⟩

/-- Statistics that have been handed in show what the worker's own show. -/
def HasHandedIn (r : Runner σ) : Prop :=
  ∀ statistics, r.control = .finished statistics →
    statistics.worker = r.worker.stats.worker ∧ statistics.periods = r.worker.stats.periods

theorem HasHandedIn.step {r : Runner σ} (h : r.HasHandedIn) (E : Engine σ) {s : Shared}
    (hid : r.worker.id < s.coordinator.numWorkers) : (r.step E s).1.HasHandedIn := by
  intro statistics hcontrol
  rcases (r.step_cases E s hid).finished_cases hcontrol with heq | ⟨verdict, hhanding⟩
  · rw [heq] at hcontrol ⊢
    exact h statistics hcontrol
  · obtain ⟨hworker, hfinal⟩ := step_handingIn E hhanding hcontrol
    obtain ⟨_, _, rfl⟩ := finalStatistics_eq_ok hfinal
    rw [hworker]
    exact ⟨rfl, rfl⟩

end Runner

/-- No length is `0` if the present one is not. -/
theorem Worker.nextLength_pos {w : Worker} (h : 1 ≤ w.periodLength) (c : Coordinator) (t : Tally) :
    1 ≤ w.nextLength c t := by
  unfold nextLength
  split
  · dsimp only [Pace.combine]
    split
    · exact h
    · exact Nat.le_max_right _ _
  · exact h

/-- The length of a period that an event begins. -/
def Event.length? : Event → Option Nat
  | .entered length => some length
  | _ => none

/-- A period begins only when the clock is moved on. -/
theorem Runner.Step.lengths_cases {r r' : Runner σ} {c c' : Coordinator} {events : List Event}
    (h : r.Step c events r' c') :
    events.filterMap Event.length? = [] ∨
      events.filterMap Event.length? = [r'.worker.periodLength] ∧
        r'.worker.period = r.worker.period + 1 := by
  cases h with
  | enter _ _ _ hperiod _ _ _ hlength => exact .inr ⟨by rw [hlength]; rfl, hperiod⟩
  | fail _ _ _ _ _ _ _ _ hevents =>
    rcases hevents with rfl | ⟨_, _, _, _, -, rfl⟩ <;> exact .inl rfl
  | _ => exact .inl rfl

/-- A worker's clock in order: `lengths` are the lengths of its periods so far, and `work` is all
the work that its engine has done. -/
structure Runner.Timed (r : Runner σ) (lengths : List Nat) (work : Nat) : Prop where
  number_eq : r.worker.stats.worker = r.worker.id
  periods_eq : r.worker.stats.periods = r.worker.period
  length_pos : 1 ≤ r.worker.periodLength
  entering_pos : ∀ b length, r.control = .boundary b → b.stage = .entering length → 1 ≤ length
  /-- Until the next period is entered, the work of the present one is used up. -/
  due : ∀ b, r.control = .boundary b → b.stage.isDue = true →
    r.worker.periodLength ≤ r.worker.work
  /-- All work is that of the periods before, and what has been done in the present one. -/
  account : ∃ completed, lengths = completed ++ [r.worker.periodLength] ∧
    completed.length = r.worker.period ∧
    (work < Word.bound → work = completed.sum + r.worker.work)

namespace Runner.Timed

variable {E : Engine σ} {r : Runner σ} {s : Shared} {lengths : List Nat} {work : Nat}

theorem length_step (h : r.Timed lengths work) (hid : r.worker.id < s.coordinator.numWorkers) :
    1 ≤ (r.step E s).1.worker.periodLength := by
  rcases (r.step_cases E s hid).length_cases with ⟨-, hlength⟩ | ⟨b, length, hr, hb, -, hlength⟩
  · rw [hlength]
    exact h.length_pos
  · rw [hlength]
    exact h.entering_pos b length hr hb

theorem entering_step (h : r.Timed lengths work) (hid : r.worker.id < s.coordinator.numWorkers)
    (b : Boundary) (length : Nat) (hr' : (r.step E s).1.control = .boundary b)
    (hb : b.stage = .entering length) : 1 ≤ length := by
  rcases (r.step_cases E s hid).entering_cases hr' hb with
    ⟨heq, -⟩ | ⟨-, _, -, ⟨-, -, rfl⟩ | ⟨t, -, rfl⟩⟩
  · rw [heq] at hr'
    exact h.entering_pos b length hr' hb
  · exact h.length_pos
  · exact Worker.nextLength_pos h.length_pos _ t

/-- Until the clock is moved on, the work of the period stays used up. -/
theorem due_step (h : r.Timed lengths work) (hid : r.worker.id < s.coordinator.numWorkers)
    (b' : Boundary) (hr' : (r.step E s).1.control = .boundary b') (hb' : b'.stage.isDue = true) :
    (r.step E s).1.worker.periodLength ≤ (r.step E s).1.worker.work := by
  rcases (r.step_cases E s hid).due_cases hr' hb' with heq | hr | ⟨b, hr, hb, hnot⟩
  · rw [heq] at hr' ⊢
    exact h.due b' hr' hb'
  · rw [step_searching E s hr] at hr' ⊢
    obtain ⟨hw, hbound⟩ := atBoundary_of_serve E r hr' hb'
    rw [hw]
    exact of_decide_eq_true hbound
  · cases r.ticks_step E s with
    | still _ hstill =>
      rw [hstill.length_eq, hstill.work_eq]
      exact h.due b hr hb
    | work units _ hr₂ => cases hr.symm.trans hr₂
    | enter _ hr₂ hb₂ =>
      obtain rfl := Control.boundary.inj (hr.symm.trans hr₂)
      exact absurd hb₂ (hnot _)

/-- Every step keeps a clock in order. -/
theorem step (h : r.Timed lengths work) (hid : r.worker.id < s.coordinator.numWorkers) :
    (r.step E s).1.Timed (lengths ++ (r.events E s).filterMap Event.length?)
      (work + (r.worked E).sum) := by
  have hlengths := (r.step_cases E s hid).lengths_cases
  have hpos := h.length_step (E := E) hid
  have hentering := h.entering_step (E := E) hid
  have hdue := h.due_step (E := E) hid
  obtain ⟨completed, rfl, hcount, haccount⟩ := h.account
  cases r.ticks_step E s with
  | still hadded hstill =>
    have hnil : (r.events E s).filterMap Event.length? = [] := hlengths.resolve_right fun hnew => by
      have := hnew.2
      rw [hstill.period_eq] at this
      omega
    rw [hnil, hadded, List.append_nil]
    refine ⟨?_, ?_, hpos, hentering, hdue, completed, ?_, ?_, ?_⟩
    · rw [hstill.number_eq, (r.step_cases E s hid).same.id_eq, h.number_eq]
    · rw [hstill.periods_eq, hstill.period_eq, h.periods_eq]
    · rw [hstill.length_eq]
    · rw [hstill.period_eq, hcount]
    · rw [hstill.work_eq]
      exact haccount
  | work units hadded hr hw =>
    have hnil : (r.events E s).filterMap Event.length? = [] := hlengths.resolve_right fun hnew => by
      have : r.worker.period = r.worker.period + 1 := (congrArg Worker.period hw).symm.trans hnew.2
      omega
    rw [hnil, hadded, List.append_nil, List.sum_singleton]
    refine ⟨?_, ?_, hpos, hentering, hdue, completed, ?_, ?_, ?_⟩
    · rw [hw]
      exact h.number_eq
    · rw [hw]
      exact h.periods_eq
    · rw [hw]
      rfl
    · rw [hw]
      exact hcount
    · -- the clock stops at the largest word, which a total below the bound does not reach
      intro hlt
      have hbefore := haccount (by omega)
      have hmax : Word.max + 1 = Word.bound := rfl
      rw [hw]
      simp only [Worker.addWork, Word.satAdd]
      omega
  | enter hadded hr hb hw =>
    have hentered := Worker.enter_eq_ok hw
    have hnew : (r.events E s).filterMap Event.length? = [(r.step E s).1.worker.periodLength] := by
      rw [hentered, events_boundary E s hr]
      unfold Boundary.step Boundary.stepEntering Boundary.events
      rw [hb]
      dsimp only
      rw [hw]
      rfl
    have hused := h.due _ hr (by rw [hb]; rfl)
    rw [hnew, hadded, List.sum_nil, Nat.add_zero]
    refine ⟨?_, ?_, hpos, hentering, hdue, completed ++ [r.worker.periodLength], rfl, ?_, ?_⟩
    · rw [hentered]
      exact h.number_eq
    · rw [hentered]
      exact congrArg (· + 1) h.periods_eq
    · rw [List.length_append, hcount, hentered]
      rfl
    · intro hlt
      have hbefore := haccount hlt
      rw [List.sum_append, List.sum_singleton, hentered]
      dsimp only
      omega

end Runner.Timed

/-- The worker runs, and its mailbox has no set for the next period yet. -/
def Control.isAligned : Control → Bool
  | .ready | .searching | .reporting _ | .closing _ => true
  | .boundary b => b.stage.ahead = 0
  | _ => false

theorem Control.Fits.aligned {c : Coordinator} {w : Worker} {k : Control} (h : k.Fits c w)
    (haligned : k.isAligned = true) :
    (c.box w.id).isClosed = false ∧ (c.box w.id).past.size = w.period := by
  cases k with
  | boundary b =>
    have hahead : b.stage.ahead = 0 := of_decide_eq_true haligned
    exact ⟨h.1, by rw [h.2.1, hahead, Nat.add_zero]⟩
  | ready | searching | reporting | closing => exact h
  | leaving | signingOff | handingIn | finished | panicked => cases haligned

namespace Exchange

variable {config : Config} {x : Exchange σ}

/-- Until its set is complete, a worker that runs appends to the set of its period. -/
theorem Standing.tail_of_isAligned (h : x.Standing config) {w : Nat} {r : Runner σ}
    (hr : x.runners[w]? = some r) (haligned : r.control.isAligned = true) :
    (x.shared.coordinator.box w).isClosed = false ∧
      (x.shared.coordinator.box w).tail.period = r.worker.period := by
  obtain ⟨hid, -, -, -, hfits⟩ := h.runner w r hr
  obtain ⟨hopen, hpast⟩ := hfits.aligned haligned
  rw [hid] at hopen hpast
  exact ⟨hopen, by rw [(h.logs w (h.lt_mailboxes (h.lt_numWorkers hr))).tail_period, hpast]⟩

/-- A worker's clock is in order after every schedule. -/
theorem Fresh.timed_follow (h : x.Fresh config) (hlength : 1 ≤ config.periodLength) (E : Engine σ)
    (t : List Nat) {w : Nat} {r : Runner σ} (hr : (x.follow E t).runners[w]? = some r) :
    r.Timed (config.periodLength :: (x.journal E t w).filterMap Event.length?)
      (x.record E (fun r _ => r.worked E) t w).sum := by
  have hw := (h.standing.follow E t).lt_numWorkers hr
  obtain ⟨r₀, hr₀⟩ := h.standing.exists_runner hw
  have hcontrol := h.control_eq w r₀ hr₀
  have hworker := h.worker hr₀
  obtain ⟨q, hq, htimed⟩ := h.standing.record_follow E (fun r _ => r.worked E) hr₀
    (P := fun _ q events log =>
      q.Timed (config.periodLength :: events.filterMap Event.length?) log.sum)
    (by
      refine ⟨by rw [hworker], by rw [hworker], by rw [hworker]; exact hlength,
        fun b _ hb => ?_, fun b hb => ?_, [], by rw [hworker]; rfl, by rw [hworker]; rfl,
        fun _ => by rw [hworker]; rfl⟩
      · rw [hcontrol] at hb
        cases hb
      · rw [hcontrol] at hb
        cases hb)
    (fun t q events log hq htimed => by
      have hstands := h.standing.follow E t
      have hid := (hstands.runner w q hq).id_eq
      have hstep := htimed.step (E := E) (s := (x.follow E t).shared)
        (by rw [hid]; exact hstands.lt_mailboxes hw)
      rw [List.filterMap_append, List.sum_append]
      exact hstep)
    (fun _ _ _ _ _ _ _ _ _ _ htimed => htimed) t
  obtain rfl := Option.some.inj (hr.symm.trans hq)
  exact htimed

/-- What a worker hands in shows its number and its period. -/
theorem Fresh.handed_follow (h : x.Fresh config) (hlength : 1 ≤ config.periodLength) (E : Engine σ)
    (t : List Nat) {w : Nat} {r : Runner σ} (hr : (x.follow E t).runners[w]? = some r)
    {statistics : WorkerStatistics} (hcontrol : r.control = .finished statistics) :
    statistics.worker = w ∧ statistics.periods = r.worker.period := by
  have hkept := h.standing.invariant E
    (P := fun y => ∀ (i : Nat) (q : Runner σ), y.runners[i]? = some q → q.HasHandedIn)
    (fun i q hq statistics hcontrol => by
      rw [h.control_eq i q hq] at hcontrol
      cases hcontrol)
    (fun y j hy hall i q hq => by
      cases hs : y.runners[j]? with
      | none =>
        rw [turn_of_none E hs] at hq
        exact hall i q hq
      | some s =>
        rw [runners_turn E hs] at hq
        split at hq
        · obtain rfl := Option.some.inj hq
          refine (hall j s hs).step E ?_
          rw [(hy.runner j s hs).id_eq]
          exact hy.lt_mailboxes (hy.lt_numWorkers hs)
        · exact hall i q hq) t
  obtain ⟨hnumber, hperiods⟩ := hkept w r hr statistics hcontrol
  have htimed := h.timed_follow hlength E t hr
  rw [hnumber, hperiods, htimed.number_eq, htimed.periods_eq]
  exact ⟨((h.standing.follow E t).runner w r hr).id_eq, rfl⟩

end Exchange

end ClauseExchange
