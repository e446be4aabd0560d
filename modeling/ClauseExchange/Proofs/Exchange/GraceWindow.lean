import ClauseExchange.Engine.Scripted
import ClauseExchange.Proofs.Exchange.Lag
import ClauseExchange.Proofs.Report.Ranking

/-!
# The winner and its grace window

In an orderly run of the mode that waits, the winner is the best of all conclusive reports, and
every worker that is told to stop is told so in the same period, right after the winner's grace
window.

The reason is that a worker cannot pass the period `margin` behind which another one has concluded
without having read that one's last set, which was completed after the report. So nobody goes on
beyond the window of a report that is made (`Exchange.Judged.going`), and nobody is so far ahead
that a report which is still to come could end its search earlier (`Exchange.Lagging.near`).

* `Exchange.Concluded` says that a worker's engine has returned a verdict.
* `Exchange.Judged` is what holds after every part of an orderly run (`Exchange.judged_follow`).
* `Portfolio.grace_window` puts it together for complete runs.
-/

namespace ClauseExchange

/-- The verdict that the engine has returned, if it has. -/
def Control.verdict? : Control → Option Verdict
  | .reporting v | .closing v | .leaving (.concluded v) | .signingOff (.concluded v)
  | .handingIn v => some v
  | .finished statistics => some statistics.verdict
  | _ => none

/-- The runner has reported the verdict, or has panicked since. -/
def Control.HasReported (verdict : Verdict) : Control → Prop
  | .closing v | .leaving (.concluded v) | .signingOff (.concluded v) | .handingIn v => v = verdict
  | .finished statistics => statistics.verdict = verdict
  | .panicked _ => True
  | _ => False

/-- Only a worker with a verdict closes its mailbox, unless a rule is broken. -/
theorem Control.Fits.verdict?_isSome {c : Coordinator} {w : Worker} {k : Control} (h : k.Fits c w)
    (hclosed : (c.box w.id).isClosed = true) (hgood : k.isBroken = false) :
    ∃ verdict, k.verdict? = some verdict := by
  have hopen {p : Prop} (hopen : (c.box w.id).isClosed = false) : p := by
    rw [hopen] at hclosed
    cases hclosed
  cases k with
  | ready => exact hopen h.1
  | searching => exact hopen h.1
  | boundary b => exact hopen h.1
  | reporting v => exact ⟨v, rfl⟩
  | closing v => exact ⟨v, rfl⟩
  | leaving ending =>
    cases ending with
    | concluded v => exact ⟨v, rfl⟩
    | broken f => cases hgood
  | signingOff ending =>
    cases ending with
    | concluded v => exact ⟨v, rfl⟩
    | broken f => cases hgood
  | handingIn v => exact ⟨v, rfl⟩
  | finished statistics => exact ⟨_, rfl⟩
  | panicked f => cases hgood

/-- The boundary is about to ask whether to stop. -/
def Control.isDeciding : Control → Bool
  | .boundary ⟨_, .deciding⟩ => true
  | _ => false

theorem Control.isDeciding_boundary (b : Boundary) :
    (Control.boundary b).isDeciding = true ↔ b.stage = .deciding := by
  obtain ⟨counters, stage⟩ := b
  cases stage <;> simp [isDeciding]

variable {σ : Type}

namespace Runner.Step

variable {r r' : Runner σ} {c c' : Coordinator} {events : List Event}

/-- The winner changes only with a report. -/
theorem winner_cases (h : r.Step c events r' c') : c'.winner? = c.winner? ∨
    ∃ verdict best, r.control = .reporting verdict ∧
      Report.displaces ⟨verdict, ⟨r.worker.period, r.worker.id⟩⟩ c.winner? = .ok best ∧
      c'.winner? =
        if best then some ⟨verdict, ⟨r.worker.period, r.worker.id⟩⟩ else c.winner? := by
  have hack (u q : Nat) : (c.acknowledge u r.worker.id q).2.winner? = c.winner? := by
    rw [Coordinator.acknowledge, Coordinator.onMailbox_snd]
    rfl
  cases h with
  | start _ hboard => exact .inl hboard.winner_eq
  | signOff _ hboard => exact .inl hboard.winner_eq
  | acknowledge => exact .inl (hack _ _)
  | fail _ _ _ _ _ _ hcases =>
    rcases hcases with rfl | ⟨n, f, -, -, rfl⟩ | ⟨offset, t, q, f, -, -, rfl⟩
    · exact .inl rfl
    · exact .inl rfl
    · exact .inl (hack _ _)
  | report hr hbest => exact .inr ⟨_, _, hr, hbest, rfl⟩
  | _ => exact .inl rfl

/-- A worker's clock in a step: it stands still, or the next period is entered and the worker is
about to decide, or the worker decides. -/
theorem clock_cases (h : r.Step c events r' c') (htime : r.worker.config.limits.time = none)
    (hmemory : r.worker.config.limits.memory = none) :
    r'.worker.period = r.worker.period ∧ r'.worker.stopped = r.worker.stopped ∧
      r'.control.isDeciding = r.control.isDeciding ∨
    r'.worker.period = r.worker.period + 1 ∧ r'.worker.stopped = r.worker.stopped ∧
      r'.control.isDeciding = true ∧
      (∃ b length, r.control = .boundary b ∧ b.stage = .entering length) ∨
    r'.worker.period = r.worker.period ∧
      r'.worker.stopped = c.shouldTerminate r.worker.period ∧ r.control.isDeciding = true ∧
      r'.control.isDeciding = false ∧ c' = c := by
  have hof {k : Control} {b : Boundary} {stage : Stage} (hk : k = .boundary b)
      (hb : b.stage = stage) (hne : stage ≠ .deciding) : k.isDeciding = false := by
    rw [hk, ← Bool.not_eq_true, Control.isDeciding_boundary, hb]
    exact hne
  cases h with
  | stay => exact .inl ⟨rfl, rfl, rfl⟩
  | start hr => exact .inl ⟨rfl, rfl, by rw [hr]; rfl⟩
  | serve hr hq => exact .inl ⟨hq.period_eq, hq.stopped_eq, by rw [hr]⟩
  | take hr hk => exact .inl ⟨rfl, rfl, by rw [hr]; rcases hk with rfl | ⟨f, rfl⟩ <;> rfl⟩
  | arrive hr => exact .inl ⟨rfl, rfl, by rw [hr]; rfl⟩
  | pass hr => exact .inl ⟨rfl, rfl, by rw [hr]; rfl⟩
  | conclude hr => exact .inl ⟨rfl, rfl, by rw [hr]; rfl⟩
  | reply hr hb => exact .inl ⟨rfl, rfl, (hof hr hb (by simp)).symm⟩
  | sort hr hb hq hstage =>
    refine .inl ⟨hq.period_eq, hq.stopped_eq, ?_⟩
    rw [hof hr hb (by simp)]
    rcases hstage with rfl | ⟨d, rfl⟩ <;> rfl
  | publish hr hb hq => exact .inl ⟨hq.period_eq, hq.stopped_eq, (hof hr hb (by simp)).symm⟩
  | advance hr hb hq =>
    refine .inl ⟨hq.period_eq, hq.stopped_eq, ?_⟩
    rw [hof hr hb (by simp)]
    exact hof rfl rfl (by dsimp only; split <;> simp)
  | skip hr hb => exact .inl ⟨rfl, rfl, (hof hr hb (by simp)).symm⟩
  | fetch hr hb => exact .inl ⟨rfl, rfl, (hof hr hb (by simp)).symm⟩
  | survey hr hb => exact .inl ⟨rfl, rfl, (hof hr hb (by simp)).symm⟩
  | passOver hr hb => exact .inl ⟨rfl, rfl, (hof hr hb (by simp)).symm⟩
  | read hr hb => exact .inl ⟨rfl, rfl, (hof hr hb (by simp)).symm⟩
  | acknowledge hr hb => exact .inl ⟨rfl, rfl, (hof hr hb (by simp)).symm⟩
  | average hr hb hq => exact .inl ⟨hq.period_eq, hq.stopped_eq, (hof hr hb (by simp)).symm⟩
  | enter hr hb _ hperiod _ hstopped => exact .inr (.inl ⟨hperiod, hstopped, rfl, _, _, hr, hb⟩)
  | decide hr hb hstop =>
    refine .inr (.inr ⟨rfl, hstop htime hmemory, ?_, rfl, rfl⟩)
    rw [hr, Control.isDeciding_boundary]
    exact hb
  | fail _ hr hb _ hperiod hstopped => exact .inl ⟨hperiod, hstopped, (hof hr rfl hb).symm⟩
  | give hr hq =>
    refine .inl ⟨hq.period_eq, hq.stopped_eq, ?_⟩
    rcases hr with hr | hr | ⟨verdict, f, hr, -⟩ <;> rw [hr] <;> rfl
  | report hr => exact .inl ⟨rfl, rfl, by rw [hr]; rfl⟩
  | close hr => exact .inl ⟨rfl, rfl, by rw [hr]; rfl⟩
  | leave hr => exact .inl ⟨rfl, rfl, by rw [hr]; rfl⟩
  | signOff hr _ hk =>
    refine .inl ⟨rfl, rfl, ?_⟩
    rw [hr]
    rcases hk with ⟨f, rfl⟩ | ⟨verdict, -, rfl⟩ <;> rfl
  | handIn hr hk =>
    refine .inl ⟨rfl, rfl, ?_⟩
    rw [hr]
    rcases hk with ⟨f, rfl⟩ | ⟨stats, -, rfl⟩ <;> rfl

/-- An engine's verdict is new, or stays with the runner. -/
theorem verdict_cases (h : r.Step c events r' c') {verdict : Verdict}
    (hv : r'.control.verdict? = some verdict) :
    r'.control = .reporting verdict ∨
      r.control.verdict? = some verdict ∧ r'.worker.period = r.worker.period := by
  cases h with
  | stay => exact .inr ⟨hv, rfl⟩
  | conclude hr => exact .inl (congrArg Control.reporting (Option.some.inj hv))
  | take hr hk => rcases hk with rfl | ⟨f, rfl⟩ <;> cases hv
  | report hr => exact .inr ⟨by rw [hr]; exact hv, rfl⟩
  | close hr => exact .inr ⟨by rw [hr]; exact hv, rfl⟩
  | leave hr =>
    rename_i ending n
    refine .inr ⟨?_, rfl⟩
    rw [hr]
    cases ending <;> exact hv
  | signOff hr _ hk =>
    rcases hk with ⟨f, rfl⟩ | ⟨v, rfl, rfl⟩
    · cases hv
    · exact .inr ⟨by rw [hr]; exact hv, rfl⟩
  | handIn hr hk =>
    rcases hk with ⟨f, rfl⟩ | ⟨stats, hstats, rfl⟩
    · cases hv
    · refine .inr ⟨?_, rfl⟩
      rw [hr, ← hstats]
      exact hv
  | _ => cases hv

/-- A report is accepted or refused. -/
theorem reporting_cases (h : r.Step c events r' c') {verdict : Verdict}
    (hr : r.control = .reporting verdict) :
    r' = r ∧ c' = c ∨
      (∃ best, Report.displaces ⟨verdict, ⟨r.worker.period, r.worker.id⟩⟩ c.winner? = .ok best ∧
        r' = { r with control := .closing verdict } ∧
        c' = { c with
          winner? :=
            if best then some ⟨verdict, ⟨r.worker.period, r.worker.id⟩⟩ else c.winner? }) ∨
      (∃ f, Report.displaces ⟨verdict, ⟨r.worker.period, r.worker.id⟩⟩ c.winner? = .error f) ∧
        r'.control.isBroken = true := by
  cases h with
  | stay => exact .inl ⟨rfl, rfl⟩
  | report hr' hbest =>
    obtain rfl := Control.reporting.inj (hr.symm.trans hr')
    exact .inr (.inl ⟨_, hbest, rfl, rfl⟩)
  | give hr' =>
    rcases hr' with hr' | hr' | ⟨verdict', f, hr', herror⟩
    · cases hr.symm.trans hr'
    · cases hr.symm.trans hr'
    · obtain rfl := Control.reporting.inj (hr.symm.trans hr')
      exact .inr (.inr ⟨⟨f, herror⟩, rfl⟩)
  | _ =>
    have hr' := hr.symm.trans ‹r.control = _›
    cases hr'

/-- Once a report is made, nothing about it changes. -/
theorem hasReported (h : r.Step c events r' c') (hid : r.worker.id < c.numWorkers)
    {verdict : Verdict} (hv : r.control.HasReported verdict) :
    r'.control.HasReported verdict ∧ r'.worker.period = r.worker.period ∧
      (c'.box r.worker.id).past.size = (c.box r.worker.id).past.size := by
  have hnot {k : Control} (hk : r.control = k) (hnone : ¬ k.HasReported verdict) {p : Prop} : p :=
    absurd (hk ▸ hv) hnone
  cases h with
  | stay => exact ⟨hv, rfl, rfl⟩
  | close hr =>
    rw [hr] at hv
    exact ⟨hv, rfl, by rw [Coordinator.box_setBox_self hid, Mailbox.past_close]⟩
  | leave hr =>
    rename_i ending n
    rw [hr] at hv
    refine ⟨?_, rfl, by rw [Coordinator.box_setBox_self hid, Mailbox.past_close]⟩
    cases ending <;> exact hv
  | signOff hr hboard hk =>
    rw [hr] at hv
    refine ⟨?_, rfl, by rw [Coordinator.box_congr hboard.mailboxes_eq]⟩
    rcases hk with ⟨f, rfl⟩ | ⟨v, rfl, rfl⟩
    · trivial
    · exact hv
  | handIn hr hk =>
    rw [hr] at hv
    refine ⟨?_, rfl, rfl⟩
    rcases hk with ⟨f, rfl⟩ | ⟨stats, hstats, rfl⟩
    · trivial
    · exact hstats.trans hv
  | give hr => rcases hr with hr | hr | ⟨v, f, hr, -⟩ <;> exact hnot hr id
  | _ => exact hnot ‹r.control = _› id

end Runner.Step

/-! ## Orderly runs -/

namespace Exchange

variable (E : Engine σ) (x : Exchange σ)

/-- In the course of a schedule the engine of the worker that `ρ` names has returned the verdict of
`ρ` in the period of `ρ`. -/
def Concluded (schedule : List Nat) (ρ : Report) : Prop :=
  ∃ (n : Nat) (r : Runner σ),
    (x.follow E (schedule.take n)).runners[ρ.signature.worker]? = some r ∧
      r.control = .reporting ρ.verdict ∧ r.worker.period = ρ.signature.period

/-- The engines keep to the rules of a search in the course of a schedule. -/
structure Orderly (schedule : List Nat) : Prop where
  /-- An engine answers `unknown` only after it has been told to stop. -/
  unknown_stopped : ∀ (n i : Nat) (r : Runner σ),
    (x.follow E (schedule.take n)).runners[i]? = some r → r.control = .reporting .unknown →
      r.worker.stopped = true
  /-- Two conclusive verdicts do not contradict each other. -/
  agree : ∀ ρ ρ', x.Concluded E schedule ρ → x.Concluded E schedule ρ' →
    ρ.verdict.contradicts ρ'.verdict = false

/-- No rule has been broken in the course of a schedule, and nobody has given up too early. -/
structure Smooth (schedule : List Nat) : Prop where
  /-- An engine answers `unknown` only after it has been told to stop. -/
  unknown_stopped : ∀ (n i : Nat) (r : Runner σ),
    (x.follow E (schedule.take n)).runners[i]? = some r → r.control = .reporting .unknown →
      r.worker.stopped = true
  unbroken : ∀ (i : Nat) (r : Runner σ), (x.follow E schedule).runners[i]? = some r →
    r.control.isBroken = false

/-- What holds after every part of an orderly run. -/
structure Judged (schedule : List Nat) : Prop where
  returned : ∀ (i : Nat) (r : Runner σ) (verdict : Verdict),
    (x.follow E schedule).runners[i]? = some r → r.control.verdict? = some verdict →
      x.Concluded E schedule ⟨verdict, ⟨r.worker.period, i⟩⟩
  /-- A verdict is about to be reported, or it is reported and the winner is not worse. -/
  concluded : ∀ ρ, x.Concluded E schedule ρ → ∃ r,
    (x.follow E schedule).runners[ρ.signature.worker]? = some r ∧
      r.worker.period = ρ.signature.period ∧
      ((x.follow E schedule).shared.coordinator.box ρ.signature.worker).past.size =
        ρ.signature.period ∧
      (r.control = .reporting ρ.verdict ∨
        r.control.HasReported ρ.verdict ∧
          ∃ W, (x.follow E schedule).shared.coordinator.winner? = some W ∧
            (ρ.verdict.isConclusive = true → ¬ ρ.signature < W.signature))
  winner : ∀ W, (x.follow E schedule).shared.coordinator.winner? = some W →
    x.Concluded E schedule W ∧ W.verdict.isConclusive = true
  /-- No worker has gone beyond the grace window of a conclusive verdict by more than a period, -/
  window : ∀ (i : Nat) (r : Runner σ) (ρ : Report), (x.follow E schedule).runners[i]? = some r →
    x.Concluded E schedule ρ → ρ.verdict.isConclusive = true →
      r.worker.period ≤ ρ.signature.period + (x.follow E schedule).shared.coordinator.margin + 1
  /-- and none that goes on has gone beyond it at all. -/
  going : ∀ (i : Nat) (r : Runner σ) (ρ : Report), (x.follow E schedule).runners[i]? = some r →
    r.worker.stopped = false → r.control.isDeciding = false →
    x.Concluded E schedule ρ → ρ.verdict.isConclusive = true →
      r.worker.period ≤ ρ.signature.period + (x.follow E schedule).shared.coordinator.margin
  /-- A worker that has been told to stop is in the first period after the winner's window. -/
  stopped : ∀ (i : Nat) (r : Runner σ), (x.follow E schedule).runners[i]? = some r →
    r.worker.stopped = true → ∃ W, (x.follow E schedule).shared.coordinator.winner? = some W ∧
      r.worker.period =
        W.signature.period + (x.follow E schedule).shared.coordinator.margin + 1

variable {E x} {schedule : List Nat}

theorem Concluded.append {ρ : Report} (h : x.Concluded E schedule ρ) (t : List Nat) :
    x.Concluded E (schedule ++ t) ρ := by
  obtain ⟨n, r, hr, hcontrol, hperiod⟩ := h
  refine ⟨min n schedule.length, r, ?_, hcontrol, hperiod⟩
  rw [List.take_append_of_le_length (Nat.min_le_right _ _), ← List.take_eq_take_min]
  exact hr

theorem concluded_concat {i : Nat} {ρ : Report} (h : x.Concluded E (schedule ++ [i]) ρ) :
    x.Concluded E schedule ρ ∨ ∃ r,
      (x.follow E (schedule ++ [i])).runners[ρ.signature.worker]? = some r ∧
        r.control = .reporting ρ.verdict ∧ r.worker.period = ρ.signature.period := by
  obtain ⟨n, r, hr, hcontrol, hperiod⟩ := h
  rcases Nat.lt_or_ge schedule.length n with hn | hn
  · rw [List.take_of_length_le (by rw [List.length_append]; exact hn)] at hr
    exact .inr ⟨r, hr, hcontrol, hperiod⟩
  · rw [List.take_append_of_le_length hn] at hr
    exact .inl ⟨n, r, hr, hcontrol, hperiod⟩

theorem Orderly.take (h : x.Orderly E schedule) (n : Nat) : x.Orderly E (schedule.take n) where
  unknown_stopped k i r hr := h.unknown_stopped (min k n) i r (by rwa [List.take_take] at hr)
  agree ρ ρ' hρ hρ' := by
    have hmono {ρ : Report} (hρ : x.Concluded E (schedule.take n) ρ) :
        x.Concluded E schedule ρ := by
      have := hρ.append (schedule.drop n)
      rwa [List.take_append_drop] at this
    exact h.agree ρ ρ' (hmono hρ) (hmono hρ')

/-- Whether all verdicts that are about to be reported are `verdict`, or come from workers that have
been told to stop. -/
def concursOn (verdict : Verdict) (x : Exchange σ) : Bool :=
  x.runners.all fun r =>
    match r.control with
    | .reporting v => v == verdict || v == .unknown && r.worker.stopped
    | _ => true

/-- A run in which all conclusive verdicts are the same is orderly if nobody gives up too early. -/
theorem orderly_of_throughout {verdict : Verdict}
    (h : throughout E (concursOn verdict) x schedule = true) (hverdict : verdict ≠ .unknown) :
    x.Orderly E schedule := by
  have hreporting {n i : Nat} {r : Runner σ} {v : Verdict}
      (hr : (x.follow E (schedule.take n)).runners[i]? = some r) (hv : r.control = .reporting v) :
      v = verdict ∨ v = .unknown ∧ r.worker.stopped = true := by
    obtain ⟨hi, rfl⟩ := Array.getElem?_eq_some_iff.1 hr
    have hcheck := Array.all_eq_true.1 (of_throughout h n) i hi
    rw [hv] at hcheck
    simpa using hcheck
  refine ⟨fun n i r hr hv => ?_, fun ρ ρ' ⟨n, r, hr, hv, _⟩ ⟨n', r', hr', hv', _⟩ => ?_⟩
  · exact ((hreporting hr hv).resolve_left hverdict.symm).2
  · unfold Verdict.contradicts
    rcases hreporting hr hv with hv | ⟨hv, -⟩ <;>
      rcases hreporting hr' hv' with hv' | ⟨hv', -⟩ <;> rw [hv, hv'] <;>
      simp [Verdict.isConclusive]

/-- It is also smooth if no rule has been broken in the end. -/
theorem smooth_of_throughout {verdict : Verdict}
    (h : throughout E (concursOn verdict) x schedule = true) (hverdict : verdict ≠ .unknown)
    (hgood : (x.follow E schedule).runners.all (fun r => !r.control.isBroken) = true) :
    x.Smooth E schedule where
  unknown_stopped := (orderly_of_throughout h hverdict).unknown_stopped
  unbroken i r hr := by
    obtain ⟨hi, rfl⟩ := Array.getElem?_eq_some_iff.1 hr
    simpa using Array.all_eq_true.1 hgood i hi

theorem concluded_of_reporting {i : Nat} {r : Runner σ} {verdict : Verdict}
    (hr : (x.follow E schedule).runners[i]? = some r) (hcontrol : r.control = .reporting verdict) :
    x.Concluded E schedule ⟨verdict, ⟨r.worker.period, i⟩⟩ :=
  ⟨schedule.length, r, by rwa [List.take_length], hcontrol, rfl⟩

/-- A worker that is about to report has an open mailbox, so that nobody has left it behind. -/
theorem Lagging.period_le {config : Config} {y : Exchange σ} (h : y.Lagging)
    (hy : y.Standing config) {i v : Nat} {r q : Runner σ} {verdict : Verdict}
    (hr : y.runners[i]? = some r) (hq : y.runners[v]? = some q)
    (hcontrol : q.control = .reporting verdict) :
    r.worker.period ≤ q.worker.period + y.shared.coordinator.margin := by
  obtain ⟨hid, -, -, -, hfits⟩ := hy.runner v q hq
  rw [hcontrol] at hfits
  obtain ⟨hopen, hpast⟩ := hfits
  rw [hid] at hopen hpast
  have hle := h.period_le_of_open hy hr (hy.lt_numWorkers hq) hopen
  rwa [hpast] at hle

/-! ## One more turn -/

/-- A worker that is told to go on has not passed the window of any conclusive verdict. -/
theorem Judged.period_le_of_decide {config : Config} {i : Nat} {r : Runner σ}
    (h : x.Judged E schedule)
    (hy : (x.follow E schedule).Standing config) (hlag : (x.follow E schedule).Lagging)
    (hr : (x.follow E schedule).runners[i]? = some r)
    (hgoing : (x.follow E schedule).shared.coordinator.shouldTerminate r.worker.period = false)
    {ρ : Report} (hρ : x.Concluded E schedule ρ) (hconclusive : ρ.verdict.isConclusive = true) :
    r.worker.period ≤ ρ.signature.period + (x.follow E schedule).shared.coordinator.margin := by
  obtain ⟨q, hq, hperiod, -, hcontrol | ⟨-, W, hW, hbetter⟩⟩ := h.concluded ρ hρ
  · rw [← hperiod]
    exact hlag.period_le hy hr hq hcontrol
  · have hle := Signature.period_le_of_not_lt (hbetter hconclusive)
    rw [Coordinator.shouldTerminate, hW] at hgoing
    dsimp only at hgoing
    rw [Report.endsPeriod, (h.winner W hW).2, Bool.not_true, Bool.false_or,
      decide_eq_false_iff_not, Word.satAdd] at hgoing
    omega

/-- A worker that is told to stop is right after the winner's window. -/
theorem Judged.period_eq_of_decide {config : Config} {i : Nat} {r : Runner σ}
    (h : x.Judged E schedule)
    (hy : (x.follow E schedule).Standing config)
    (hr : (x.follow E schedule).runners[i]? = some r)
    (hstop : (x.follow E schedule).shared.coordinator.shouldTerminate r.worker.period = true) :
    ∃ W, (x.follow E schedule).shared.coordinator.winner? = some W ∧ r.worker.period =
      W.signature.period + (x.follow E schedule).shared.coordinator.margin + 1 := by
  unfold Coordinator.shouldTerminate at hstop
  split at hstop
  · cases hstop
  · rename_i W hW
    obtain ⟨hconc, hverdict⟩ := h.winner W hW
    have hwindow := h.window i r W hr hconc hverdict
    have hlt := (hy.runner i r hr).period_lt
    rw [Report.endsPeriod, hverdict, Bool.not_true, Bool.false_or, decide_eq_true_eq,
      Word.satAdd] at hstop
    -- a sum that is cut off at the largest word is never passed
    have hmax : Word.max + 1 = Word.bound := rfl
    exact ⟨W, hW, by omega⟩

/-- A turn of worker `i` in a run that has been orderly so far, in which its runner gets from `r` to
`r'`. -/
structure Turned (E : Engine σ) (x : Exchange σ) (config : Config) (schedule : List Nat) (i : Nat)
    (r r' : Runner σ) : Prop where
  judged : x.Judged E schedule
  unknown_stopped : r.control = .reporting .unknown → r.worker.stopped = true
  accepted : ∀ verdict, r.control = .reporting verdict → r'.control.isBroken = false
  standing : (x.follow E schedule).Standing config
  standing' : (x.follow E (schedule ++ [i])).Standing config
  lagging : (x.follow E schedule).Lagging
  lagging' : (x.follow E (schedule ++ [i])).Lagging
  time_eq : r.worker.config.limits.time = none
  memory_eq : r.worker.config.limits.memory = none
  runner : (x.follow E schedule).runners[i]? = some r
  step : r.Step (x.follow E schedule).shared.coordinator ((x.follow E schedule).events E i) r'
    (x.follow E (schedule ++ [i])).shared.coordinator
  effect : (x.follow E schedule).shared.coordinator.Effect i
    (x.follow E (schedule ++ [i])).shared.coordinator
  runners : ∀ j, (x.follow E (schedule ++ [i])).runners[j]? =
    if j = i then some r' else (x.follow E schedule).runners[j]?

namespace Turned

variable {config : Config} {i : Nat} {r r' : Runner σ} (h : x.Turned E config schedule i r r')
include h

theorem id_eq : r.worker.id = i := (h.standing.runner i r h.runner).id_eq

theorem lt_numWorkers : i < (x.follow E schedule).shared.coordinator.numWorkers :=
  h.standing.lt_mailboxes (h.standing.lt_numWorkers h.runner)

theorem runner' : (x.follow E (schedule ++ [i])).runners[i]? = some r' := by
  rw [h.runners, if_pos rfl]

theorem fits : r.control.Fits (x.follow E schedule).shared.coordinator r.worker :=
  (h.standing.runner i r h.runner).fits

/-- A verdict that is new is that of the worker whose turn it was. -/
theorem concluded_cases {ρ : Report} (hρ : x.Concluded E (schedule ++ [i]) ρ) :
    x.Concluded E schedule ρ ∨
      ρ.signature.worker = i ∧ r'.control = .reporting ρ.verdict ∧
        r'.worker.period = ρ.signature.period := by
  rcases concluded_concat hρ with hρ | ⟨q, hq, hcontrol, hperiod⟩
  · exact .inl hρ
  · rw [h.runners] at hq
    split at hq
    · rename_i hworker
      obtain rfl := Option.some.inj hq
      exact .inr ⟨hworker, hcontrol, hperiod⟩
    · exact .inl ⟨schedule.length, q, by rwa [List.take_length], hcontrol, hperiod⟩

/-- Nobody is beyond the window of a verdict that is about to be reported. -/
theorem period_le_of_new {ρ : Report} {j : Nat} {q : Runner σ}
    (hq : (x.follow E (schedule ++ [i])).runners[j]? = some q)
    (hcontrol : r'.control = .reporting ρ.verdict)
    (hperiod : r'.worker.period = ρ.signature.period) :
    q.worker.period ≤
      ρ.signature.period + (x.follow E (schedule ++ [i])).shared.coordinator.margin := by
  rw [← hperiod]
  exact h.lagging'.period_le h.standing' hq h.runner' hcontrol

/-! ### The winner -/

/-- A report that replaces the winner is conclusive and better. -/
theorem winner_step {W : Report}
    (hW : (x.follow E (schedule ++ [i])).shared.coordinator.winner? = some W) :
    x.Concluded E schedule W ∧ W.verdict.isConclusive = true ∧
      ∀ W₀, (x.follow E schedule).shared.coordinator.winner? = some W₀ →
        W = W₀ ∨ W.signature < W₀.signature := by
  rcases h.step.winner_cases with heq | ⟨verdict, best, hcontrol, hbest, heq⟩
  · rw [heq] at hW
    obtain ⟨hconc, hverdict⟩ := h.judged.winner W hW
    exact ⟨hconc, hverdict, fun W₀ hW₀ => .inl (Option.some.inj (hW.symm.trans hW₀))⟩
  · rw [h.id_eq] at hbest heq
    have hconc := concluded_of_reporting h.runner hcontrol
    rw [hW] at heq
    rcases Report.displaces_eq_ok hbest with ⟨hnone, rfl⟩ | ⟨W₀, hW₀, hbetter⟩
    · obtain rfl := Option.some.inj heq
      refine ⟨hconc, ?_, fun W₁ hW₁ => by rw [hnone] at hW₁; cases hW₁⟩
      -- without a winner nobody has been told to stop
      cases verdict with
      | unknown =>
        obtain ⟨W₁, hW₁, -⟩ := h.judged.stopped i r h.runner (h.unknown_stopped hcontrol)
        rw [hnone] at hW₁
        cases hW₁
      | satisfiable => rfl
      | unsatisfiable => rfl
    · cases best with
      | true =>
        obtain rfl := Option.some.inj heq
        obtain ⟨hverdict, hlt⟩ := Bool.and_eq_true_iff.1 hbetter.symm
        refine ⟨hconc, hverdict, fun W₁ hW₁ => .inr ?_⟩
        obtain rfl := Option.some.inj (hW₀.symm.trans hW₁)
        exact of_decide_eq_true hlt
      | false =>
        obtain ⟨hconc, hverdict⟩ := h.judged.winner W heq.symm
        exact ⟨hconc, hverdict, fun W₁ hW₁ => .inl (Option.some.inj (heq.trans hW₁))⟩

theorem exists_winner {W : Report}
    (hW : (x.follow E schedule).shared.coordinator.winner? = some W) :
    ∃ W', (x.follow E (schedule ++ [i])).shared.coordinator.winner? = some W' := by
  rcases h.step.winner_cases with heq | ⟨verdict, best, -, -, heq⟩
  · exact ⟨W, heq.trans hW⟩
  · cases best with
    | true => exact ⟨_, heq⟩
    | false => exact ⟨W, heq.trans hW⟩

/-- The winner does not get worse. -/
theorem winner_kept {ρ W : Report}
    (hW : (x.follow E schedule).shared.coordinator.winner? = some W)
    (hρ : ρ.verdict.isConclusive = true → ¬ ρ.signature < W.signature) :
    ∃ W', (x.follow E (schedule ++ [i])).shared.coordinator.winner? = some W' ∧
      (ρ.verdict.isConclusive = true → ¬ ρ.signature < W'.signature) := by
  obtain ⟨W', hW'⟩ := h.exists_winner hW
  refine ⟨W', hW', fun hconclusive => ?_⟩
  rcases (h.winner_step hW').2.2 W hW with rfl | hlt
  · exact hρ hconclusive
  · exact Signature.not_lt_trans (hρ hconclusive) hlt

/-- A worker that has been told to stop stays right after the winner's window. -/
theorem stopped_kept {j : Nat} {q : Runner σ}
    (hq : (x.follow E schedule).runners[j]? = some q) (hstopped : q.worker.stopped = true) :
    ∃ W, (x.follow E (schedule ++ [i])).shared.coordinator.winner? = some W ∧ q.worker.period =
      W.signature.period + (x.follow E schedule).shared.coordinator.margin + 1 := by
  obtain ⟨W, hW, hperiod⟩ := h.judged.stopped j q hq hstopped
  obtain ⟨W', hW'⟩ := h.exists_winner hW
  refine ⟨W', hW', ?_⟩
  obtain ⟨hconc, hverdict, hbetter⟩ := h.winner_step hW'
  rcases hbetter W hW with rfl | hlt
  · exact hperiod
  · have hwindow := h.judged.window j q W' hq hconc hverdict
    rw [Signature.lt_iff] at hlt
    omega

/-- A verdict that a worker is about to report is reported in its next step. -/
theorem reported_step {verdict : Verdict} (hcontrol : r.control = .reporting verdict) :
    (x.follow E (schedule ++ [i])).shared.coordinator.mailboxes =
        (x.follow E schedule).shared.coordinator.mailboxes ∧
      (r' = r ∨ r' = { r with control := .closing verdict } ∧
        ∃ W, (x.follow E (schedule ++ [i])).shared.coordinator.winner? = some W ∧
          (verdict.isConclusive = true →
            ¬ (⟨r.worker.period, i⟩ : Signature) < W.signature)) := by
  rcases h.step.reporting_cases hcontrol with ⟨hr, hc⟩ | ⟨best, hbest, hr, hc⟩ | ⟨-, hbroken⟩
  · exact ⟨by rw [hc], .inl hr⟩
  · refine ⟨by rw [hc], .inr ⟨hr, ?_⟩⟩
    rw [hc]
    dsimp only
    rw [h.id_eq] at hbest ⊢
    rcases Report.displaces_eq_ok hbest with ⟨-, rfl⟩ | ⟨W, hW, hbetter⟩
    · exact ⟨_, rfl, fun _ => Signature.lt_irrefl _⟩
    · cases best with
      | true => exact ⟨_, rfl, fun _ => Signature.lt_irrefl _⟩
      | false =>
        refine ⟨W, hW, fun hconclusive => ?_⟩
        rw [hconclusive, Bool.true_and] at hbetter
        exact of_decide_eq_false hbetter.symm
  · rw [h.accepted verdict hcontrol] at hbroken
    cases hbroken

/-! ### The account after the turn -/

theorem returned {j : Nat} {q : Runner σ} {verdict : Verdict}
    (hq : (x.follow E (schedule ++ [i])).runners[j]? = some q)
    (hv : q.control.verdict? = some verdict) :
    x.Concluded E (schedule ++ [i]) ⟨verdict, ⟨q.worker.period, j⟩⟩ := by
  have hkeep := hq
  rw [h.runners] at hq
  split at hq
  · rename_i hji
    subst hji
    obtain rfl := Option.some.inj hq
    rcases h.step.verdict_cases hv with hcontrol | ⟨hv, hperiod⟩
    · exact concluded_of_reporting hkeep hcontrol
    · rw [hperiod]
      exact (h.judged.returned j r verdict h.runner hv).append [j]
  · exact (h.judged.returned j q verdict hq hv).append [i]

/-- The verdict of the worker whose turn it is stays accounted for, -/
theorem concluded_own {ρ : Report} (hρ : x.Concluded E schedule ρ)
    (hworker : ρ.signature.worker = i) :
    r'.worker.period = ρ.signature.period ∧
      ((x.follow E (schedule ++ [i])).shared.coordinator.box i).past.size = ρ.signature.period ∧
      (r'.control = .reporting ρ.verdict ∨
        r'.control.HasReported ρ.verdict ∧
          ∃ W, (x.follow E (schedule ++ [i])).shared.coordinator.winner? = some W ∧
            (ρ.verdict.isConclusive = true → ¬ ρ.signature < W.signature)) := by
  obtain ⟨q, hq, hperiod, hpast, hcase⟩ := h.judged.concluded ρ hρ
  rw [hworker] at hq hpast
  obtain rfl := Option.some.inj (h.runner.symm.trans hq)
  rcases hcase with hcontrol | ⟨hreported, W, hW, hbetter⟩
  · obtain ⟨hboxes, hcase⟩ := h.reported_step hcontrol
    rw [Coordinator.box_congr hboxes]
    rcases hcase with rfl | ⟨rfl, W, hW, hbetter⟩
    · exact ⟨hperiod, hpast, .inl hcontrol⟩
    · have hsignature : ρ.signature = ⟨r.worker.period, i⟩ := by rw [hperiod, ← hworker]
      rw [← hsignature] at hbetter
      exact ⟨hperiod, hpast, .inr ⟨rfl, W, hW, hbetter⟩⟩
  · obtain ⟨hreported', hperiod', hpast'⟩ :=
      h.step.hasReported (by rw [h.id_eq]; exact h.lt_numWorkers) hreported
    rw [h.id_eq, hpast] at hpast'
    exact ⟨hperiod'.trans hperiod, hpast', .inr ⟨hreported', h.winner_kept hW hbetter⟩⟩

/-- and so does that of any other worker. -/
theorem concluded {ρ : Report} (hρ : x.Concluded E (schedule ++ [i]) ρ) :
    ∃ q, (x.follow E (schedule ++ [i])).runners[ρ.signature.worker]? = some q ∧
      q.worker.period = ρ.signature.period ∧
      ((x.follow E (schedule ++ [i])).shared.coordinator.box ρ.signature.worker).past.size =
        ρ.signature.period ∧
      (q.control = .reporting ρ.verdict ∨
        q.control.HasReported ρ.verdict ∧
          ∃ W, (x.follow E (schedule ++ [i])).shared.coordinator.winner? = some W ∧
            (ρ.verdict.isConclusive = true → ¬ ρ.signature < W.signature)) := by
  rcases h.concluded_cases hρ with hρ | ⟨hworker, hcontrol, hperiod⟩
  · by_cases hworker : ρ.signature.worker = i
    · have hown := h.concluded_own hρ hworker
      rw [hworker]
      exact ⟨r', h.runner', hown⟩
    · obtain ⟨q, hq, hperiod, hpast, hcase⟩ := h.judged.concluded ρ hρ
      refine ⟨q, by rw [h.runners, if_neg hworker]; exact hq, hperiod,
        (h.effect.size_past_eq h.lt_numWorkers hworker).trans hpast,
        hcase.imp_right fun ⟨hreported, W, hW, hbetter⟩ => ?_⟩
      exact ⟨hreported, h.winner_kept hW hbetter⟩
  · obtain ⟨hid', -, -, -, hfits⟩ := h.standing'.runner i r' h.runner'
    rw [hcontrol] at hfits
    have hpast := hfits.2
    rw [hid', hperiod] at hpast
    rw [hworker]
    exact ⟨r', h.runner', hperiod, hpast, .inl hcontrol⟩

theorem window {j : Nat} {q : Runner σ} {ρ : Report}
    (hq : (x.follow E (schedule ++ [i])).runners[j]? = some q)
    (hρ : x.Concluded E (schedule ++ [i]) ρ) (hconclusive : ρ.verdict.isConclusive = true) :
    q.worker.period ≤
      ρ.signature.period + (x.follow E (schedule ++ [i])).shared.coordinator.margin + 1 := by
  rcases h.concluded_cases hρ with hρ | ⟨-, hcontrol, hperiod⟩
  · rw [h.effect.margin_eq]
    rw [h.runners] at hq
    split at hq
    · obtain rfl := Option.some.inj hq
      rcases h.step.clock_cases h.time_eq h.memory_eq with ⟨hperiod, -⟩ |
        ⟨hperiod, -, -, b, length, hb, hstage⟩ | ⟨hperiod, -⟩
      · rw [hperiod]
        exact h.judged.window i r ρ h.runner hρ hconclusive
      · -- who enters a period has not been told to stop
        obtain ⟨-, -, hstopped⟩ := Runner.fits_boundary h.fits hb hstage
        have hdeciding : r.control.isDeciding = false := by
          rw [hb, ← Bool.not_eq_true, Control.isDeciding_boundary, hstage]
          simp
        have hle := h.judged.going i r ρ h.runner hstopped hdeciding hρ hconclusive
        omega
      · rw [hperiod]
        exact h.judged.window i r ρ h.runner hρ hconclusive
    · exact h.judged.window j q ρ hq hρ hconclusive
  · exact (h.period_le_of_new hq hcontrol hperiod).trans (Nat.le_succ _)

theorem going {j : Nat} {q : Runner σ} {ρ : Report}
    (hq : (x.follow E (schedule ++ [i])).runners[j]? = some q) (hstopped : q.worker.stopped = false)
    (hdeciding : q.control.isDeciding = false) (hρ : x.Concluded E (schedule ++ [i]) ρ)
    (hconclusive : ρ.verdict.isConclusive = true) :
    q.worker.period ≤
      ρ.signature.period + (x.follow E (schedule ++ [i])).shared.coordinator.margin := by
  rcases h.concluded_cases hρ with hρ | ⟨-, hcontrol, hperiod⟩
  · rw [h.effect.margin_eq]
    rw [h.runners] at hq
    split at hq
    · obtain rfl := Option.some.inj hq
      rcases h.step.clock_cases h.time_eq h.memory_eq with ⟨hperiod, hst, hdec⟩ |
        ⟨-, -, hdec, -⟩ | ⟨hperiod, hst, -⟩
      · rw [hperiod]
        exact h.judged.going i r ρ h.runner (hst.symm.trans hstopped) (hdec.symm.trans hdeciding)
          hρ hconclusive
      · rw [hdec] at hdeciding
        cases hdeciding
      · rw [hperiod]
        exact h.judged.period_le_of_decide h.standing h.lagging h.runner (hst.symm.trans hstopped)
          hρ hconclusive
    · exact h.judged.going j q ρ hq hstopped hdeciding hρ hconclusive
  · exact h.period_le_of_new hq hcontrol hperiod

theorem stopped {j : Nat} {q : Runner σ}
    (hq : (x.follow E (schedule ++ [i])).runners[j]? = some q)
    (hstopped : q.worker.stopped = true) :
    ∃ W, (x.follow E (schedule ++ [i])).shared.coordinator.winner? = some W ∧ q.worker.period =
      W.signature.period + (x.follow E (schedule ++ [i])).shared.coordinator.margin + 1 := by
  rw [h.effect.margin_eq]
  rw [h.runners] at hq
  split at hq
  · obtain rfl := Option.some.inj hq
    rcases h.step.clock_cases h.time_eq h.memory_eq with ⟨hperiod, hst, -⟩ |
      ⟨-, hst, -, b, length, hb, hstage⟩ | ⟨hperiod, hst, -, -, hc⟩
    · rw [hperiod]
      exact h.stopped_kept h.runner (hst.symm.trans hstopped)
    · obtain ⟨-, -, hnot⟩ := Runner.fits_boundary h.fits hb hstage
      have := (hst.symm.trans hstopped).symm.trans hnot
      cases this
    · rw [hperiod, hc]
      exact h.judged.period_eq_of_decide h.standing h.runner (hst.symm.trans hstopped)
  · exact h.stopped_kept hq hstopped

theorem judged' : x.Judged E (schedule ++ [i]) where
  returned _ _ _ := h.returned
  concluded _ := h.concluded
  winner W hW := by
    obtain ⟨hconc, hverdict, -⟩ := h.winner_step hW
    exact ⟨hconc.append [i], hverdict⟩
  window _ _ _ := h.window
  going _ _ _ := h.going
  stopped _ _ := h.stopped

end Turned

/-- A turn that changes nothing keeps the account of a run. -/
theorem Judged.concat_of_eq {i : Nat} (h : x.Judged E schedule)
    (heq : x.follow E (schedule ++ [i]) = x.follow E schedule) : x.Judged E (schedule ++ [i]) := by
  have hold {ρ : Report} (hρ : x.Concluded E (schedule ++ [i]) ρ) : x.Concluded E schedule ρ := by
    rcases concluded_concat hρ with hρ | ⟨q, hq, hcontrol, hperiod⟩
    · exact hρ
    · rw [heq] at hq
      exact ⟨schedule.length, q, by rwa [List.take_length], hcontrol, hperiod⟩
  refine ⟨?_, ?_, ?_, ?_, ?_, ?_⟩ <;> rw [heq]
  · exact fun j q verdict hq hv => (h.returned j q verdict hq hv).append [i]
  · exact fun ρ hρ => h.concluded ρ (hold hρ)
  · exact fun W hW => ⟨(h.winner W hW).1.append [i], (h.winner W hW).2⟩
  · exact fun j q ρ hq hρ => h.window j q ρ hq (hold hρ)
  · exact fun j q ρ hq hstopped hdeciding hρ => h.going j q ρ hq hstopped hdeciding (hold hρ)
  · exact h.stopped

/-- One more turn keeps the account of a run, unless a report is refused in it. -/
theorem Judged.concat {config : Config} (h : x.Judged E schedule)
    (hy : (x.follow E schedule).Standing config) (hlag : (x.follow E schedule).Lagging)
    (htime : config.limits.time = none) (hmemory : config.limits.memory = none)
    (hmode : config.nonDeterministic = false) (i : Nat)
    (hstopped : ∀ r, (x.follow E schedule).runners[i]? = some r →
      r.control = .reporting .unknown → r.worker.stopped = true)
    (haccepted : ∀ r r' verdict, (x.follow E schedule).runners[i]? = some r →
      (x.follow E (schedule ++ [i])).runners[i]? = some r' → r.control = .reporting verdict →
        r'.control.isBroken = false) : x.Judged E (schedule ++ [i]) := by
  have hconcat := follow_concat E x schedule i
  rcases hy.turn_cases E i with ⟨heq, -⟩ | ⟨r, r', hr, hstep, heff, hrunners⟩
  · exact h.concat_of_eq (hconcat.trans heq)
  · have hz := hy.turn E i
    have hlag' := hlag.turn hy hmode E i
    have hconfig := (hy.runner i r hr).config_eq
    rw [← hconcat] at hz hlag' hstep heff hrunners
    have hturned : x.Turned E config schedule i r r' :=
      ⟨h, hstopped r hr, fun verdict => haccepted r r' verdict hr (by rw [hrunners, if_pos rfl]),
        hy, hz, hlag, hlag', by rw [hconfig]; exact htime, by rw [hconfig]; exact hmemory, hr,
        hstep, heff, hrunners⟩
    exact hturned.judged'

/-- As long as the conclusive verdicts agree, no report is refused. -/
theorem Judged.accepted_of_agree {config : Config} (h : x.Judged E schedule)
    (hy : (x.follow E schedule).Standing config)
    (hagree : ∀ ρ ρ', x.Concluded E schedule ρ → x.Concluded E schedule ρ' →
      ρ.verdict.contradicts ρ'.verdict = false) {i : Nat} {r r' : Runner σ} {verdict : Verdict}
    (hr : (x.follow E schedule).runners[i]? = some r)
    (hr' : (x.follow E (schedule ++ [i])).runners[i]? = some r')
    (hcontrol : r.control = .reporting verdict) : r'.control.isBroken = false := by
  rw [follow_concat] at hr'
  rcases hy.turn_cases E i with ⟨heq, -⟩ | ⟨q, q', hq, hstep, -, hrunners⟩
  · rw [heq, hr] at hr'
    rw [← Option.some.inj hr', hcontrol]
    rfl
  · obtain rfl := Option.some.inj (hr.symm.trans hq)
    rw [hrunners, if_pos rfl] at hr'
    obtain rfl := Option.some.inj hr'
    rcases hstep.reporting_cases hcontrol with ⟨rfl, -⟩ | ⟨-, -, rfl, -⟩ | ⟨⟨f, herror⟩, -⟩
    · rw [hcontrol]
      rfl
    · rfl
    · obtain ⟨W, hW, hcontra⟩ := Report.displaces_eq_error herror
      rw [hagree W _ (h.winner W hW).1 (concluded_of_reporting hr hcontrol)] at hcontra
      cases hcontra

/-! ## Whole runs -/

theorem Fresh.judged_nil {config : Config} (h : x.Fresh config) : x.Judged E [] := by
  have hnone {ρ : Report} : ¬ x.Concluded E [] ρ := by
    rintro ⟨n, r, hr, hcontrol, -⟩
    rw [List.take_nil] at hr
    have := (h.control_eq _ r hr).symm.trans hcontrol
    cases this
  refine ⟨fun i r verdict hr hv => ?_, fun ρ hρ => absurd hρ hnone, fun W hW => ?_,
    fun i r ρ _ hρ => absurd hρ hnone, fun i r ρ _ _ _ hρ => absurd hρ hnone,
    fun i r hr hstopped => ?_⟩
  · rw [h.control_eq i r hr] at hv
    cases hv
  · have := h.winner_eq.symm.trans hW
    cases this
  · rw [h.worker hr] at hstopped
    cases hstopped

/-- The account of a run in which nobody gives up too early and no report is refused. -/
theorem Fresh.judged_of_accepted {config : Config} (h : x.Fresh config)
    (htime : config.limits.time = none) (hmemory : config.limits.memory = none)
    (hmode : config.nonDeterministic = false)
    (hstopped : ∀ (n i : Nat) (r : Runner σ), (x.follow E (schedule.take n)).runners[i]? = some r →
      r.control = .reporting .unknown → r.worker.stopped = true)
    (haccepted : ∀ s i, s ++ [i] <+: schedule → x.Judged E s → ∀ (r r' : Runner σ) verdict,
      (x.follow E s).runners[i]? = some r → (x.follow E (s ++ [i])).runners[i]? = some r' →
        r.control = .reporting verdict → r'.control.isBroken = false) : x.Judged E schedule := by
  induction schedule using List.reverseRecOn with
  | nil => exact h.judged_nil
  | append_singleton schedule i ih =>
    have hprefix : schedule <+: schedule ++ [i] := List.prefix_append schedule [i]
    have hpart (n : Nat) : (schedule ++ [i]).take (min n schedule.length) = schedule.take n := by
      rw [List.take_append_of_le_length (Nat.min_le_right _ _), ← List.take_eq_take_min]
    have hjudged := ih (fun n j r hr => hstopped (min n schedule.length) j r (by rwa [hpart]))
      fun s j hs => haccepted s j (hs.trans hprefix)
    refine hjudged.concat (h.standing.follow E schedule) (h.lagging_follow hmode E schedule) htime
      hmemory hmode i (fun r hr => ?_) (haccepted schedule i (List.prefix_refl _) hjudged)
    exact hstopped schedule.length i r (by rwa [List.take_left])

/-- The account of an orderly run. -/
theorem Fresh.judged {config : Config} (h : x.Fresh config) (htime : config.limits.time = none)
    (hmemory : config.limits.memory = none) (hmode : config.nonDeterministic = false)
    (horderly : x.Orderly E schedule) : x.Judged E schedule := by
  refine h.judged_of_accepted htime hmemory hmode horderly.unknown_stopped
    fun s i hs hjudged r r' verdict hr hr' hcontrol => ?_
  have hpart := horderly.take s.length
  rw [← List.prefix_iff_eq_take.1 ((List.prefix_append s [i]).trans hs)] at hpart
  exact hjudged.accepted_of_agree (h.standing.follow E s) hpart.agree hr hr' hcontrol

/-- A part of a smooth run is smooth. -/
theorem Smooth.of_prefix {config : Config} (h : x.Smooth E schedule) (hx : x.Standing config)
    {s : List Nat} (hs : s <+: schedule) : x.Smooth E s := by
  obtain ⟨t, rfl⟩ := hs
  refine ⟨fun n i r hr => ?_, fun i r hr => ?_⟩
  · refine h.unknown_stopped (min n s.length) i r ?_
    rwa [List.take_append_of_le_length (Nat.min_le_right _ _), ← List.take_eq_take_min]
  · rw [← Bool.not_eq_true]
    intro hbroken
    obtain ⟨q, hq, hbroken⟩ := (hx.follow E s).isBroken_follow E t hr hbroken
    rw [← follow_append] at hq
    rw [h.unbroken i q hq] at hbroken
    cases hbroken

/-- The account of a smooth run. -/
theorem Fresh.judged_of_smooth {config : Config} (h : x.Fresh config)
    (htime : config.limits.time = none) (hmemory : config.limits.memory = none)
    (hmode : config.nonDeterministic = false) (hsmooth : x.Smooth E schedule) :
    x.Judged E schedule :=
  h.judged_of_accepted htime hmemory hmode hsmooth.unknown_stopped
    fun _ _ hs _ _ r' _ _ hr' _ => (hsmooth.of_prefix h.standing hs).unbroken _ r' hr'

/-- Periods do not decrease. -/
theorem Standing.period_le_follow {config : Config} {y : Exchange σ} (hy : y.Standing config)
    (t : List Nat) {j : Nat} {q : Runner σ} (hq : y.runners[j]? = some q) :
    ∃ q', (y.follow E t).runners[j]? = some q' ∧ q.worker.period ≤ q'.worker.period := by
  refine hy.runner_follow E hq (P := fun _ _ q' _ => q.worker.period ≤ q'.worker.period) le_rfl
    (fun _ _ _ _ hle => hle) (fun _ _ _ _ _ _ hle hstep => hle.trans ?_)
    (fun _ _ _ _ _ hle _ _ _ => hle) t
  rcases hstep.length_cases with ⟨hperiod, -⟩ | ⟨-, -, -, -, hperiod, -⟩ <;> omega

/-- A verdict that is returned later than a part of the schedule comes from a worker that nobody is
ahead of by more than the margin. -/
theorem Fresh.concluded_take_or_period_le {config : Config} (h : x.Fresh config)
    (hmode : config.nonDeterministic = false) {ρ : Report} (hρ : x.Concluded E schedule ρ)
    {n i : Nat} {r : Runner σ} (hr : (x.follow E (schedule.take n)).runners[i]? = some r) :
    x.Concluded E (schedule.take n) ρ ∨ r.worker.period ≤ ρ.signature.period + config.margin := by
  obtain ⟨m, q, hq, hcontrol, hperiod⟩ := hρ
  rcases le_total m n with hmn | hnm
  · exact .inl ⟨m, q, by rwa [List.take_take, Nat.min_eq_left hmn], hcontrol, hperiod⟩
  · refine .inr ?_
    have hsplit : schedule.take m = schedule.take n ++ (schedule.take m).drop n := by
      conv_lhs => rw [← List.take_append_drop n (schedule.take m)]
      rw [List.take_take, Nat.min_eq_left hnm]
    have hy := h.standing.follow E (schedule.take m)
    obtain ⟨r', hr', hle⟩ := (h.standing.follow E (schedule.take n)).period_le_follow (E := E)
      ((schedule.take m).drop n) hr
    rw [← follow_append, ← hsplit] at hr'
    have hbound := (h.lagging_follow hmode E (schedule.take m)).period_le hy hr' hq hcontrol
    rw [hy.margin_eq, hperiod] at hbound
    exact hle.trans hbound

end Exchange

/-- The answer of a worker that asks whether to stop. -/
theorem Runner.control_step_deciding (E : Engine σ) {r : Runner σ} {s : Shared} {b : Boundary}
    (hr : r.control = .boundary b) (hb : b.stage = .deciding)
    (htime : r.worker.config.limits.time = none)
    (hmemory : r.worker.config.limits.memory = none) :
    (r.step E s).1.control =
      .boundary { b with stage := .answered (!s.coordinator.shouldTerminate r.worker.period) } := by
  unfold step
  rw [hr]
  dsimp only
  rw [hb]
  dsimp only
  unfold Boundary.step
  rw [hb]
  dsimp only
  unfold Boundary.stepDeciding
  dsimp only
  rw [Limits.check_of_unlimited _ _ htime hmemory]
  cases s.coordinator.shouldTerminate r.worker.period <;> rfl

namespace Exchange

variable {E : Engine σ} {x : Exchange σ} {schedule : List Nat}

/-- In the end the winner is the best conclusive report. -/
theorem Judged.winner_best (h : x.Judged E schedule)
    (hover : (x.follow E schedule).isOver = true) {ρ : Report} (hρ : x.Concluded E schedule ρ) :
    ∃ W, (x.follow E schedule).shared.coordinator.winner? = some W ∧
      (ρ.verdict.isConclusive = true → ¬ ρ.signature < W.signature) := by
  obtain ⟨r, hr, -, -, hcontrol | ⟨-, hwinner⟩⟩ := h.concluded ρ hρ
  · -- nobody is about to report when all have left
    obtain ⟨hi, rfl⟩ := Array.getElem?_eq_some_iff.1 hr
    have hgone := Array.all_eq_true.1 hover _ hi
    rw [Runner.isOver, hcontrol] at hgone
    cases hgone
  · exact hwinner

/-- In every part of a run no worker is beyond the first period after the winner's window, and a
worker is told to stop if and only if it is there. -/
theorem Fresh.window_of_winner {config : Config} (h : x.Fresh config)
    (htime : config.limits.time = none) (hmemory : config.limits.memory = none)
    (hmode : config.nonDeterministic = false) (horderly : x.Orderly E schedule)
    (hover : (x.follow E schedule).isOver = true) {W : Report}
    (hW : (x.follow E schedule).shared.coordinator.winner? = some W) {n i : Nat} {r : Runner σ}
    (hr : (x.follow E (schedule.take n)).runners[i]? = some r) :
    r.worker.period ≤ W.signature.period + config.margin + 1 ∧
      (r.worker.stopped = true → r.worker.period = W.signature.period + config.margin + 1) ∧
      (x.follow E (schedule.take n)).shared.coordinator.shouldTerminate r.worker.period =
        decide (r.worker.period = W.signature.period + config.margin + 1) := by
  have hjudged := h.judged htime hmemory hmode horderly
  have hpart := h.judged htime hmemory hmode (horderly.take n)
  have hy := h.standing.follow E (schedule.take n)
  have hlag := h.lagging_follow hmode E (schedule.take n)
  obtain ⟨hconc, hverdict⟩ := hjudged.winner W hW
  have hcases := h.concluded_take_or_period_le hmode hconc hr
  have hmargin := hy.margin_eq
  have hwindow : r.worker.period ≤ W.signature.period + config.margin + 1 := by
    rcases hcases with hconc | hle
    · rw [← hmargin]
      exact hpart.window i r W hr hconc hverdict
    · omega
  -- the winner of a part of the run has the same window as the winner in the end
  have htold {V : Report} (hV : (x.follow E (schedule.take n)).shared.coordinator.winner? = some V)
      (hperiod : r.worker.period = V.signature.period +
        (x.follow E (schedule.take n)).shared.coordinator.margin + 1) :
      r.worker.period = W.signature.period + config.margin + 1 := by
    obtain ⟨hVconc, hVverdict⟩ := hpart.winner V hV
    have hVconc' := hVconc.append (schedule.drop n)
    rw [List.take_append_drop] at hVconc'
    obtain ⟨W', hW', hbetter⟩ := hjudged.winner_best hover hVconc'
    obtain rfl := Option.some.inj (hW.symm.trans hW')
    have hle := Signature.period_le_of_not_lt (hbetter hVverdict)
    rw [hmargin] at hperiod
    omega
  refine ⟨hwindow, fun hstopped => ?_, ?_⟩
  · obtain ⟨V, hV, hperiod⟩ := hpart.stopped i r hr hstopped
    exact htold hV hperiod
  · cases hstop : (x.follow E (schedule.take n)).shared.coordinator.shouldTerminate
        r.worker.period with
    | true =>
      obtain ⟨V, hV, hperiod⟩ := hpart.period_eq_of_decide hy hr hstop
      exact (decide_eq_true (htold hV hperiod)).symm
    | false =>
      refine (decide_eq_false ?_).symm
      rcases hcases with hconc | hle
      · have := hpart.period_le_of_decide hy hlag hr hstop hconc hverdict
        rw [hmargin] at this
        omega
      · omega

end Exchange

namespace Portfolio

/-- The exact grace window. In an orderly and complete run of the mode that waits, without resource
limits, there is a winner as soon as some worker finishes, and the winner has the least signature of
all conclusive verdicts that engines have returned. No worker gets beyond the first period after the
winner's window, whoever is told to stop is told so there, and a worker that arrives there is told
to stop while a worker that arrives in any other period is told to go on. -/
theorem grace_window (E : Engine σ) {engines : List σ} {config : Config} {sensors : Sensors}
    {p : Portfolio σ} (h : launch engines config sensors = .ok p)
    (htime : config.limits.time = none) (hmemory : config.limits.memory = none)
    (hmode : config.nonDeterministic = false) {schedule : List Nat}
    (horderly : p.toExchange.Orderly E schedule)
    (hover : (p.toExchange.follow E schedule).isOver = true) :
    let x := p.toExchange
    let c := (x.follow E schedule).shared.coordinator
    (∀ (i : Nat) (r : Runner σ) (statistics : WorkerStatistics),
      (x.follow E schedule).runners[i]? = some r → r.control = .finished statistics →
        c.winner?.isSome) ∧
    ∀ W, c.winner? = some W →
      (x.Concluded E schedule W ∧ W.verdict.isConclusive = true ∧
        ∀ ρ, x.Concluded E schedule ρ → ρ.verdict.isConclusive = true →
          ρ.signature = W.signature ∨ W.signature < ρ.signature) ∧
      ∀ (n i : Nat) (r : Runner σ), (x.follow E (schedule.take n)).runners[i]? = some r →
        r.worker.period ≤ W.signature.period + config.margin + 1 ∧
        (∀ b, r.control = .boundary b → b.stage = .answered false →
          r.worker.period = W.signature.period + config.margin + 1) ∧
        ∀ b, r.control = .boundary b → b.stage = .deciding → ∃ r',
          ((x.follow E (schedule.take n)).turn E i).runners[i]? = some r' ∧
          r'.control = .boundary { b with
            stage := .answered
              (decide (r.worker.period ≠ W.signature.period + config.margin + 1)) } := by
  intro x c
  have hfresh := fresh_of_launch h
  have hjudged := hfresh.judged htime hmemory hmode horderly
  refine ⟨fun i r statistics hr hcontrol => ?_, fun W hW => ⟨?_, fun n i r hr => ?_⟩⟩
  · have hconc := hjudged.returned i r statistics.verdict hr (by rw [hcontrol]; rfl)
    obtain ⟨W, hW, -⟩ := hjudged.winner_best hover hconc
    rw [hW]
    rfl
  · obtain ⟨hconc, hverdict⟩ := hjudged.winner W hW
    refine ⟨hconc, hverdict, fun ρ hρ hconclusive => ?_⟩
    obtain ⟨W', hW', hbetter⟩ := hjudged.winner_best hover hρ
    obtain rfl := Option.some.inj (hW.symm.trans hW')
    by_cases heq : ρ.signature = W.signature
    · exact .inl heq
    · exact .inr (Signature.lt_of_not_lt_of_ne (hbetter hconclusive) heq)
  · obtain ⟨hwindow, hstopped, hdecide⟩ := hfresh.window_of_winner htime hmemory hmode horderly
      hover hW hr
    have hstands := (hfresh.standing.follow E (schedule.take n)).runner i r hr
    refine ⟨hwindow, fun b hb hstage => hstopped ?_, fun b hb hstage => ?_⟩
    · obtain ⟨-, -, hanswer⟩ := Runner.fits_boundary hstands.fits hb hstage
      exact hanswer
    · refine ⟨_, by rw [Exchange.runners_turn E hr, if_pos rfl], ?_⟩
      rw [Runner.control_step_deciding E hb hstage (by rw [hstands.config_eq]; exact htime)
        (by rw [hstands.config_eq]; exact hmemory), hdecide, decide_not]

/-- Of two scripted engines the first concludes in period `1`; with margin `1` the other one does
not get beyond period `3`. -/
theorem grace_window_scripted : ∃ p,
    launch [{ script := { concludeAt? := some 1 } }, { script := {} }]
      { numWorkers := 2, margin := 1, periodLength := 10 } {} = .ok p ∧
    let schedule := (List.replicate 55 [0, 1]).flatten
    (p.toExchange.follow Scripted.engine schedule).shared.coordinator.winner? =
      some ⟨.unsatisfiable, ⟨1, 0⟩⟩ ∧
    ∀ (n i : Nat) (r : Runner Scripted),
      (p.toExchange.follow Scripted.engine (schedule.take n)).runners[i]? = some r →
        r.worker.period ≤ 3 := by
  obtain ⟨p, hp, hcheck⟩ := exists_eq_ok_of_check
    (x := launch ([{ script := { concludeAt? := some 1 } }, { script := {} }] : List Scripted)
      { numWorkers := 2, margin := 1, periodLength := 10 } {})
    (q := fun p =>
      let x := p.toExchange.follow Scripted.engine (List.replicate 55 [0, 1]).flatten
      x.isOver && x.shared.coordinator.winner? == some ⟨.unsatisfiable, ⟨1, 0⟩⟩ &&
        Exchange.throughout Scripted.engine (Exchange.concursOn .unsatisfiable) p.toExchange
          (List.replicate 55 [0, 1]).flatten) (by decide +kernel)
  simp only [Bool.and_eq_true, beq_iff_eq] at hcheck
  obtain ⟨⟨hover, hwinner⟩, horderly⟩ := hcheck
  have h := grace_window Scripted.engine hp rfl rfl rfl
    (Exchange.orderly_of_throughout horderly (by decide)) hover
  exact ⟨p, hp, hwinner, fun n i r hr => ((h.2 _ hwinner).2 n i r hr).1⟩

end Portfolio

end ClauseExchange
