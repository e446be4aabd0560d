import ClauseExchange.Engine.Scripted
import ClauseExchange.Proofs.Exchange.Live
import ClauseExchange.Proofs.Exchange.Record

/-!
# Every way out leaves the exchange in order

A worker leaves because its engine has concluded, or because a rule was broken: in the engine, in
one of the calls that a boundary makes to it, or in a report that contradicts the winner. On each of
these ways it goes through the same milestones, except that only an engine that has concluded is
reported.

* `Control.Passed` says which milestones a worker has passed, and `Exchange.Counted.passes` that
  every step keeps this.
* `Exchange.Standing.completions_eq` says that every set is completed once.
* `Runner.withdraws` says what a worker on its way out leaves alone.
* `Exchange.Assembled.ways_out` puts it together for every schedule.
-/

namespace ClauseExchange

/-- What a worker passes on its way through a run. -/
inductive Milestone
  /-- It is counted as running. -/
  | started
  /-- Its engine has concluded. -/
  | returned (verdict : Verdict)
  /-- It has made a report, which may have been accepted or not. -/
  | reported (report : Report)
  /-- Its mailbox is closed. -/
  | closed
  /-- It is no longer counted as running. -/
  | stopped
  deriving DecidableEq

/-- The milestones between the start of a worker and the close of its mailbox: none if its engine
never concludes, else that and one report. -/
def Milestone.IsReturn (worker period : Nat) (ret : List Milestone) : Prop :=
  ret = [] ∨ ∃ verdict, ret = [.returned verdict, .reported ⟨verdict, ⟨period, worker⟩⟩]

namespace Control

/-- Whether a worker is about to close its mailbox or to sign off. -/
def isWithdrawing : Control → Bool
  | .closing _ | .leaving _ | .signingOff _ => true
  | _ => false

/-- Whether a worker has signed off. -/
def hasSignedOff : Control → Bool
  | .handingIn _ | .finished _ | .panicked _ => true
  | _ => false

/-- The milestones that worker `w` has passed. -/
def Passed (c : Coordinator) (w : Worker) (log : List Milestone) : Control → Prop
  | .ready => log = []
  | .searching | .boundary _ => log = [.started]
  | .reporting verdict => log = [.started, .returned verdict]
  | .closing verdict =>
    log = [.started, .returned verdict, .reported ⟨verdict, ⟨w.period, w.id⟩⟩]
  | .leaving _ => ∃ ret, Milestone.IsReturn w.id w.period ret ∧
    log = .started :: ret ++ if (c.box w.id).isClosed then [.closed] else []
  | .signingOff _ => ∃ ret, Milestone.IsReturn w.id w.period ret ∧
    log = .started :: ret ++ [.closed]
  | .handingIn _ | .finished _ | .panicked _ => ∃ ret, Milestone.IsReturn w.id w.period ret ∧
    log = .started :: ret ++ [.closed, .stopped]

/-- The mailbox of a worker that has signed off is closed. -/
theorem Fits.isClosed {c : Coordinator} {w : Worker} {k : Control} (h : k.Fits c w)
    (hoff : k.hasSignedOff = true) : (c.box w.id).isClosed = true := by
  cases k with
  | handingIn | finished | panicked => exact h.1
  | _ => cases hoff

namespace Passed

variable {c : Coordinator} {w : Worker} {log : List Milestone} {k : Control}

/-- The milestones come in one order. -/
theorem isPrefix (h : k.Passed c w log) : ∃ ret, Milestone.IsReturn w.id w.period ret ∧
    log <+: .started :: ret ++ [.closed, .stopped] ∧
      (k.hasSignedOff = true → log = .started :: ret ++ [.closed, .stopped]) := by
  cases k with
  | ready => exact ⟨[], .inl rfl, by rw [show log = [] from h]; exact List.nil_prefix, nofun⟩
  | searching | boundary =>
    exact ⟨[], .inl rfl, by rw [show log = _ from h]; exact List.prefix_append _ _, nofun⟩
  | reporting verdict =>
    refine ⟨_, .inr ⟨verdict, rfl⟩, ?_, nofun⟩
    rw [show log = _ from h]
    exact List.prefix_append [_, _] _
  | closing verdict =>
    refine ⟨_, .inr ⟨verdict, rfl⟩, ?_, nofun⟩
    rw [show log = _ from h]
    exact List.prefix_append _ _
  | leaving ending =>
    obtain ⟨ret, hret, rfl⟩ := h
    refine ⟨ret, hret, (List.prefix_append_right_inj _).2 ?_, nofun⟩
    split
    · exact List.prefix_append [_] _
    · exact List.nil_prefix
  | signingOff ending =>
    obtain ⟨ret, hret, rfl⟩ := h
    exact ⟨ret, hret, (List.prefix_append_right_inj _).2 (List.prefix_append [_] _), nofun⟩
  | handingIn | finished | panicked =>
    obtain ⟨ret, hret, rfl⟩ := h
    exact ⟨ret, hret, List.prefix_refl _, fun _ => rfl⟩

theorem started_iff (h : k.Passed c w log) : .started ∈ log ↔ k ≠ .ready := by
  cases k with
  | ready => simp [show log = [] from h]
  | searching | boundary | reporting | closing => simp [show log = _ from h]
  | leaving | signingOff | handingIn | finished | panicked =>
    obtain ⟨ret, -, rfl⟩ := h
    simp

theorem stopped_iff (h : k.Passed c w log) : .stopped ∈ log ↔ k.hasSignedOff = true := by
  have hnot {ret : List Milestone} (hret : Milestone.IsReturn w.id w.period ret) :
      .stopped ∉ ret := by
    rcases hret with rfl | ⟨verdict, rfl⟩ <;> simp
  cases k with
  | ready => simp [show log = [] from h, hasSignedOff]
  | searching | boundary | reporting | closing => simp [show log = _ from h, hasSignedOff]
  | leaving =>
    obtain ⟨ret, hret, rfl⟩ := h
    split <;> simp [hnot hret, hasSignedOff]
  | signingOff | handingIn | finished | panicked =>
    obtain ⟨ret, hret, rfl⟩ := h
    simp [hnot hret, hasSignedOff]

/-- A worker runs when it has started and not stopped. -/
theorem isRunning_iff (h : k.Passed c w log) :
    k.isRunning = true ↔ .started ∈ log ∧ .stopped ∉ log := by
  rw [h.started_iff, h.stopped_iff]
  cases k <;> simp [isRunning, hasSignedOff]

/-- The steps of others pass no milestone. -/
theorem frame {c' : Coordinator} (h : k.Passed c w log)
    (hclosed : (c'.box w.id).isClosed = (c.box w.id).isClosed) : k.Passed c' w log := by
  cases k with
  | leaving ending => simpa only [Passed, hclosed] using h
  | _ => exact h

end Passed

end Control

theorem range'_append_of_le {a b n : Nat} (hab : a ≤ b) (hbn : b ≤ n) :
    List.range' a (b - a) ++ List.range' b (n - b) = List.range' a (n - a) := by
  rw [show n - a = b - a + (n - b) by omega, ← List.range'_append_1, Nat.add_sub_cancel' hab]

/-- The numbers from `a` on and below `b` are what a filter leaves of a longer range. -/
theorem filter_range_eq {p : Nat → Bool} {a b n : Nat} (hab : a ≤ b) (hbn : b ≤ n)
    (hp : ∀ q, p q = true ↔ a ≤ q ∧ q < b) : (List.range n).filter p = List.range' a (b - a) := by
  have hsplit : List.range n = List.range a ++ List.range' a (b - a) ++ List.range' b (n - b) := by
    rw [List.append_assoc, range'_append_of_le hab hbn, List.range_eq_range', List.range_eq_range']
    exact (range'_append_of_le (Nat.zero_le a) (hab.trans hbn)).symm
  have hbelow : (List.range a).filter p = [] :=
    List.filter_eq_nil_iff.2 fun q hq => by
      rw [hp]
      exact fun h => absurd (List.mem_range.1 hq) (by omega)
  have hwithin : (List.range' a (b - a)).filter p = List.range' a (b - a) :=
    List.filter_eq_self.2 fun q hq => by
      rw [hp]
      have := List.mem_range'_1.1 hq
      omega
  have habove : (List.range' b (n - b)).filter p = [] :=
    List.filter_eq_nil_iff.2 fun q hq => by
      rw [hp]
      have := List.mem_range'_1.1 hq
      omega
  rw [hsplit, List.filter_append, List.filter_append, hbelow, hwithin, habove, List.nil_append,
    List.append_nil]

namespace Coordinator

variable {c c' : Coordinator} {u v : Nat}

theorem mailbox_setBox_of_ne (m : Mailbox) (hne : v ≠ u) :
    (c.setBox u m).mailbox v = c.mailbox v := by
  unfold mailbox setBox
  rw [Array.getElem?_setIfInBounds_ne hne.symm]

/-- Closing a mailbox moves no cursor. -/
theorem cursors_setBox_close (hu : u < c.numWorkers) (n v : Nat) :
    ((c.setBox u ((c.box u).close n)).mailbox v).map (·.cursors) =
      (c.mailbox v).map (·.cursors) := by
  by_cases hvu : v = u
  · subst hvu
    rw [mailbox_eq hu, mailbox_eq (by rwa [numWorkers_setBox]), box_setBox_self hu]
    unfold Mailbox.close
    split <;> rfl
  · rw [mailbox_setBox_of_ne _ hvu]

/-- The periods of the sets of worker `v` that are completed, or completed once more with other
clauses or another candidate, on the way from `c` to `c'`. -/
def completes (c c' : Coordinator) (v : Nat) : List Nat :=
  (List.range ((c'.box v).past.size + 1)).filter fun q => c'.frozen? v q ≠ c.frozen? v q

/-- What is completed comes right after what has been complete. -/
theorem Grows.completes_eq (h : c.Grows c') (hc : c.AllLogs) (hc' : c'.AllLogs)
    (hv : v < c.numWorkers) : c.completes c' v =
      List.range' (c.box v).completed ((c'.box v).completed - (c.box v).completed) := by
  have hv' : v < c'.numWorkers := by rwa [h.numWorkers_eq]
  have hle := (h.boxes v hv).completed_le (hc v hv) (hc' v hv')
  have hmost := (c'.box v).completed_le
  have hmem (q : Nat) : c'.frozen? v q ≠ c.frozen? v q ↔
      (c.box v).completed ≤ q ∧ q < (c'.box v).completed := by
    have hsome := (hc v hv).frozen?_isSome_iff (q := q)
    have hsome' := (hc' v hv').frozen?_isSome_iff (q := q)
    rw [← frozen?_eq hv] at hsome
    rw [← frozen?_eq hv'] at hsome'
    rcases Nat.lt_or_ge q (c.box v).completed with hq | hq
    · exact iff_of_false (not_not.2 (h.frozen_eq hv (hsome.2 hq))) (by omega)
    · have hnone : c.frozen? v q = none := by
        rw [← Option.not_isSome_iff_eq_none, hsome]
        omega
      rw [hnone, ← Option.isSome_iff_ne_none, hsome', and_iff_right hq]
  exact filter_range_eq hle hmost fun q => by rw [decide_eq_true_iff, hmem]

end Coordinator

variable {σ : Type}

namespace Runner

/-- The milestones that do not show at the coordinator: a conclusion and a report. -/
def verdicts (E : Engine σ) (r : Runner σ) : List Milestone :=
  match r.control with
  | .searching =>
    match E.request r.engine with
    | .conclude verdict => [.returned verdict]
    | _ => []
  | .reporting verdict => [.reported ⟨verdict, ⟨r.worker.period, r.worker.id⟩⟩]
  | _ => []

/-- Whether the next step of a runner closes its mailbox. -/
def closes (E : Engine σ) (r : Runner σ) (s : Shared) : Bool :=
  !(s.coordinator.box r.worker.id).isClosed &&
    ((r.step E s).2.coordinator.box r.worker.id).isClosed

/-- The milestones that a runner passes in its next step. -/
def milestones (E : Engine σ) (r : Runner σ) (s : Shared) : List Milestone :=
  (if s.coordinator.live < (r.step E s).2.coordinator.live then [.started] else []) ++
    r.verdicts E ++ (if r.closes E s then [.closed] else []) ++
    if (r.step E s).2.coordinator.live < s.coordinator.live then [.stopped] else []

variable {E : Engine σ} {r : Runner σ} {s : Shared} {c : Coordinator} {log : List Milestone}

/-! ## The milestones of a step -/

theorem closes_eq_false
    (h : ((r.step E s).2.coordinator.box r.worker.id).isClosed =
      (s.coordinator.box r.worker.id).isClosed) : r.closes E s = false := by
  rw [closes, h, Bool.not_and_self]

theorem closes_of_open (h : (s.coordinator.box r.worker.id).isClosed = false) :
    r.closes E s = ((r.step E s).2.coordinator.box r.worker.id).isClosed := by
  rw [closes, h, Bool.not_false, Bool.true_and]

/-- Between its registration and its signing off a worker neither starts nor stops. -/
theorem milestones_eq (hid : r.worker.id < s.coordinator.numWorkers) (hready : r.control ≠ .ready)
    (hsigning : ∀ ending, r.control ≠ .signingOff ending) :
    r.milestones E s = r.verdicts E ++ if r.closes E s then [.closed] else [] := by
  obtain ⟨hlive, -⟩ := (r.step_cases E s hid).live_eq hready hsigning
  rw [milestones, hlive, if_neg (Nat.lt_irrefl _), if_neg (Nat.lt_irrefl _), List.nil_append,
    List.append_nil]

/-- After its next step a runner has passed those of that step behind those of `log`. -/
def Passes (E : Engine σ) (r : Runner σ) (s : Shared) (log : List Milestone) : Prop :=
  (r.step E s).1.control.Passed (r.step E s).2.coordinator (r.step E s).1.worker
    (log ++ r.milestones E s)

theorem passes_ready (hr : r.control = .ready)
    (hstart : Word.add s.coordinator.live 1 = .ok (s.coordinator.live + 1)) :
    r.Passes E s [] := by
  have hstep := step_ready E hr hstart
  have hcloses : r.closes E s = false := closes_eq_false (by rw [hstep]; rfl)
  have hmilestones : r.milestones E s = [.started] := by
    rw [milestones, hcloses, hstep, verdicts, hr]
    simp
  rw [Passes, hmilestones, hstep]
  rfl

/-- A worker whose engine has not concluded has nothing to report on its way out. -/
theorem passed_unwinding {w : Worker} {v : Nat} {ending : Ending} (hid : w.id = v)
    (hopen : (c.box v).isClosed = false) : (Control.leaving ending).Passed c w [.started] :=
  ⟨[], .inl rfl, by rw [hid, hopen]; rfl⟩

theorem passes_searching (hr : r.control = .searching)
    (hid : r.worker.id < s.coordinator.numWorkers)
    (hopen : (s.coordinator.box r.worker.id).isClosed = false) : r.Passes E s [.started] := by
  have hstep := step_searching E s hr
  have hcloses : r.closes E s = false := closes_eq_false (by rw [hstep])
  rw [Passes, milestones_eq hid (by simp [hr]) (by simp [hr]), hcloses, hstep, verdicts, hr,
    if_neg Bool.false_ne_true, List.append_nil]
  unfold serve
  cases E.request r.engine with
  | observe | addWork | exportCandidate | takeImported => rfl
  | checkPeriod =>
    dsimp only
    cases r.toPost.arrive E with
    | error f => exact passed_unwinding rfl hopen
    | ok b => rfl
  | shouldApply =>
    have hw := r.worker.quiet_shouldApply.id_eq
    dsimp only
    rcases h : r.worker.shouldApply with ⟨f | yes, w⟩
    · rw [h] at hw
      exact passed_unwinding hw hopen
    · rfl
  | applyImported =>
    have hw := congrArg Worker.id (Post.worker_applyImported E r.toPost)
    dsimp only
    rcases h : r.toPost.applyImported E with ⟨f | outcome, p⟩
    · rw [h] at hw
      exact passed_unwinding hw hopen
    · rfl
  | conclude verdict => rfl
  | fail f => exact passed_unwinding rfl hopen

theorem passes_boundary {b : Boundary} (hr : r.control = .boundary b)
    (hid : r.worker.id < s.coordinator.numWorkers)
    (hopen : (s.coordinator.box r.worker.id).isClosed = false)
    (hsame : (r.step E s).1.worker.id = r.worker.id)
    (hfits : (r.step E s).1.control.Fits (r.step E s).2.coordinator (r.step E s).1.worker) :
    r.Passes E s [.started] := by
  have hmilestones : r.milestones E s =
      if ((r.step E s).2.coordinator.box r.worker.id).isClosed then [.closed] else [] := by
    rw [milestones_eq hid (by simp [hr]) (by simp [hr]), closes_of_open hopen, verdicts, hr]
    rfl
  rw [Passes, hmilestones]
  by_cases hb : ∃ goOn, b.stage = .answered goOn
  · obtain ⟨goOn, hb⟩ := hb
    rw [step_answered E s hr hb]
    show _ = _
    rw [hopen]
    rfl
  · push Not at hb
    rw [step_boundary E s hr hb] at hsame hfits ⊢
    cases hp : b.step E r.toPost s with
    | moved stage p s' =>
      rw [hp] at hsame hfits
      obtain ⟨hopen', -⟩ := hfits
      show _ = _
      rw [← hsame, hopen']
      rfl
    | failed f p s' =>
      rw [hp] at hsame
      exact ⟨[], .inl rfl, by rw [hsame]⟩

theorem passes_reporting {verdict : Verdict} (hr : r.control = .reporting verdict)
    (hid : r.worker.id < s.coordinator.numWorkers)
    (hopen : (s.coordinator.box r.worker.id).isClosed = false) :
    r.Passes E s [.started, .returned verdict] := by
  have hbox : (r.step E s).2.coordinator.box r.worker.id = s.coordinator.box r.worker.id := by
    unfold step Coordinator.report
    rw [hr]
    dsimp only
    split <;> rfl
  have hmilestones : r.milestones E s = [.reported ⟨verdict, ⟨r.worker.period, r.worker.id⟩⟩] := by
    rw [milestones_eq hid (by simp [hr]) (by simp [hr]), closes_eq_false (by rw [hbox]), verdicts,
      hr]
    rfl
  rw [← hbox] at hopen
  rw [Passes, hmilestones]
  unfold step Coordinator.report at hopen ⊢
  rw [hr] at hopen ⊢
  dsimp only at hopen ⊢
  cases hbest : Report.displaces ⟨verdict, ⟨r.worker.period, r.worker.id⟩⟩
      s.coordinator.winner? with
  | error f =>
    rw [hbest] at hopen
    exact ⟨_, .inr ⟨verdict, rfl⟩, by simp [settle, unwind, hopen]⟩
  | ok best => cases best <;> rfl

/-! ## On the way out -/

theorem passes_closing {verdict : Verdict} (hr : r.control = .closing verdict)
    (hid : r.worker.id < s.coordinator.numWorkers)
    (hopen : (s.coordinator.box r.worker.id).isClosed = false)
    (hpassed : r.control.Passed s.coordinator r.worker log) : r.Passes E s log := by
  rw [hr] at hpassed
  obtain rfl : log = _ := hpassed
  have hstep := step_closing E hr hid
  rw [Passes, milestones_eq hid (by simp [hr]) (by simp [hr]), closes_of_open hopen, verdicts,
    hstep, hr]
  exact ⟨_, .inr ⟨verdict, rfl⟩, rfl⟩

theorem passes_leaving {ending : Ending} (hr : r.control = .leaving ending)
    (hid : r.worker.id < s.coordinator.numWorkers)
    (hpassed : r.control.Passed s.coordinator r.worker log) : r.Passes E s log := by
  rw [hr] at hpassed
  obtain ⟨ret, hret, rfl⟩ := hpassed
  have hstep := step_leaving E hr hid
  rw [Passes, milestones_eq hid (by simp [hr]) (by simp [hr]), verdicts, closes, hstep, hr]
  dsimp only
  refine ⟨ret, hret, ?_⟩
  rw [Coordinator.box_setBox_self hid, Mailbox.isClosed_close]
  -- the mailbox is closed now, unless it has been closed before
  cases (s.coordinator.box r.worker.id).isClosed <;> simp

theorem passes_signingOff {ending : Ending} (hr : r.control = .signingOff ending)
    (hlive : 0 < s.coordinator.live) (hpassed : r.control.Passed s.coordinator r.worker log) :
    r.Passes E s log := by
  rw [hr] at hpassed
  obtain ⟨ret, hret, rfl⟩ := hpassed
  have hstep := step_signingOff E hr hlive
  have hcloses : r.closes E s = false := closes_eq_false (by rw [hstep]; rfl)
  have hmilestones : r.milestones E s = [.stopped] := by
    rw [milestones, hcloses, hstep, verdicts, hr, if_neg Bool.false_ne_true]
    dsimp only
    rw [if_neg (Nat.not_lt.2 (Nat.sub_le _ _)), if_pos (Nat.sub_lt hlive Nat.one_pos)]
    rfl
  rw [Passes, hmilestones, hstep, List.append_assoc]
  cases ending <;> exact ⟨ret, hret, rfl⟩

/-- A worker that has signed off leaves the coordinator alone. -/
theorem step_signedOff (hr : r.control.hasSignedOff = true) :
    (r.step E s).2.coordinator = s.coordinator ∧ (r.step E s).1.worker = r.worker ∧
      (r.step E s).1.control.hasSignedOff = true := by
  cases hk : r.control with
  | handingIn verdict =>
    unfold step
    rw [hk]
    dsimp only
    split <;> exact ⟨rfl, rfl, rfl⟩
  | finished | panicked =>
    have hstep : r.step E s = (r, s) := by rw [step, hk]
    rw [hstep]
    exact ⟨rfl, rfl, hr⟩
  | _ =>
    rw [hk] at hr
    cases hr

theorem passes_signedOff (hr : r.control.hasSignedOff = true)
    (hpassed : r.control.Passed s.coordinator r.worker log) : r.Passes E s log := by
  obtain ⟨hcoordinator, hworker, hafter⟩ := step_signedOff (E := E) (s := s) hr
  have hverdicts : r.verdicts E = [] := by
    unfold verdicts
    cases hk : r.control <;> rw [hk] at hr <;> first | rfl | cases hr
  have hmilestones : r.milestones E s = [] := by
    have hcloses : r.closes E s = false := closes_eq_false (by rw [hcoordinator])
    rw [milestones, hcloses, hcoordinator, hverdicts]
    simp
  have hsame {k k' : Control} (h : k.Passed s.coordinator r.worker log)
      (hk : k.hasSignedOff = true) (hk' : k'.hasSignedOff = true) :
      k'.Passed s.coordinator r.worker log := by
    cases k <;> cases hk <;> cases k' <;> first | exact h | cases hk'
  rw [Passes, hmilestones, List.append_nil, hcoordinator, hworker]
  exact hsame hpassed hr hafter

/-- A worker that closes its mailbox or signs off leaves the winner, the other mailboxes and all
cursors alone. -/
theorem withdraws (hr : r.control.isWithdrawing = true)
    (hid : r.worker.id < s.coordinator.numWorkers) :
    (r.step E s).2.coordinator.winner? = s.coordinator.winner? ∧
      (∀ v ≠ r.worker.id, (r.step E s).2.coordinator.mailbox v = s.coordinator.mailbox v) ∧
      ∀ v, ((r.step E s).2.coordinator.mailbox v).map (·.cursors) =
        (s.coordinator.mailbox v).map (·.cursors) := by
  have hother (m : Mailbox) (v : Nat) (hv : v ≠ r.worker.id) :
      (s.coordinator.setBox r.worker.id m).mailbox v = s.coordinator.mailbox v :=
    Coordinator.mailbox_setBox_of_ne m hv
  cases hk : r.control with
  | closing verdict =>
    rw [step_closing E hk hid]
    exact ⟨rfl, hother _, Coordinator.cursors_setBox_close hid _⟩
  | leaving ending =>
    rw [step_leaving E hk hid]
    exact ⟨rfl, hother _, Coordinator.cursors_setBox_close hid _⟩
  | signingOff ending =>
    unfold step Coordinator.stop
    rw [hk]
    dsimp only
    split <;> exact ⟨rfl, fun _ _ => rfl, fun _ => rfl⟩
  | _ =>
    rw [hk] at hr
    cases hr

end Runner

namespace Exchange

variable {config : Config} {x : Exchange σ}

/-! ## Milestones -/

/-- The milestones that worker `w` passes along a schedule. -/
def milestones (E : Engine σ) (x : Exchange σ) (schedule : List Nat) (w : Nat) : List Milestone :=
  x.record E (Runner.milestones E) schedule w

/-- The milestones of a worker after its own step. -/
theorem Counted.passes (h : x.Counted) (hx : x.Standing config) (E : Engine σ) {w : Nat}
    {r : Runner σ} (hr : x.runners[w]? = some r) {log : List Milestone}
    (hpassed : r.control.Passed x.shared.coordinator r.worker log) : r.Passes E x.shared log := by
  have hstands := hx.runner w r hr
  have hid : r.worker.id < x.shared.coordinator.numWorkers := by
    rw [hstands.id_eq]
    exact hx.lt_mailboxes (hx.lt_numWorkers hr)
  have hfits := hstands.fits
  cases hk : r.control with
  | ready =>
    rw [hk] at hpassed
    obtain rfl : log = _ := hpassed
    exact Runner.passes_ready hk (h.start_ok hr hk)
  | searching =>
    rw [hk] at hpassed hfits
    obtain rfl : log = _ := hpassed
    exact Runner.passes_searching hk hid hfits.1
  | boundary b =>
    rw [hk] at hpassed hfits
    obtain rfl : log = _ := hpassed
    have hstep := r.step_cases E x.shared hid
    exact Runner.passes_boundary hk hid hfits.1 hstep.same.id_eq
      (hstep.fits hid hx.logs (hx.worker_numWorkers_eq hr) hstands.fits)
  | reporting verdict =>
    rw [hk] at hpassed hfits
    obtain rfl : log = _ := hpassed
    exact Runner.passes_reporting hk hid hfits.1
  | closing verdict =>
    rw [hk] at hfits
    exact Runner.passes_closing hk hid hfits.1 hpassed
  | leaving ending => exact Runner.passes_leaving hk hid hpassed
  | signingOff ending =>
    exact Runner.passes_signingOff hk (h.live_pos hr (by rw [hk]; rfl)) hpassed
  | handingIn | finished | panicked => exact Runner.passes_signedOff (by rw [hk]; rfl) hpassed

/-- The milestones of a worker after every schedule. -/
theorem Assembled.passed_follow (h : x.Assembled config) (E : Engine σ) (schedule : List Nat)
    {w : Nat} {r : Runner σ} (hr : (x.follow E schedule).runners[w]? = some r) :
    r.control.Passed (x.follow E schedule).shared.coordinator r.worker
      (x.milestones E schedule w) := by
  have hx := h.fresh.standing
  obtain ⟨r₀, hr₀⟩ := hx.exists_runner ((hx.follow E schedule).lt_numWorkers hr)
  obtain ⟨q, hq, hpassed⟩ := hx.record_follow E (Runner.milestones E) hr₀
    (P := fun c q _ log => q.control.Passed c q.worker log)
    (by rw [h.control_eq w r₀ hr₀]; exact rfl)
    (fun t q _ log hq hpassed =>
      (h.counted_follow E t).passes (hx.follow E t) E hq hpassed)
    (fun t j c q _ log hq hwj hj heff hpassed => by
      refine hpassed.frame (heff.isClosed_eq hj ?_)
      rw [((hx.follow E t).runner w q hq).id_eq]
      exact hwj)
    schedule
  obtain rfl := Option.some.inj (hr.symm.trans hq)
  exact hpassed

/-- The workers that have started and not stopped are the ones that run. -/
theorem Assembled.running_eq (h : x.Assembled config) (E : Engine σ) (schedule : List Nat) :
    (x.follow E schedule).running = (Finset.range config.numWorkers).filter fun w =>
      .started ∈ x.milestones E schedule w ∧ .stopped ∉ x.milestones E schedule w := by
  have hy := h.fresh.standing.follow E schedule
  ext w
  rw [Finset.mem_filter, Finset.mem_range]
  by_cases hw : w < config.numWorkers
  · obtain ⟨r, hr⟩ := hy.exists_runner hw
    rw [mem_running hr, (h.passed_follow E schedule hr).isRunning_iff, and_iff_right hw]
  · refine iff_of_false (fun hmem => hw ?_) fun hmem => hw hmem.1
    rw [running, hy.size_runners] at hmem
    exact Finset.mem_range.1 (Finset.mem_filter.1 hmem).1

/-- There is a number of running workers as soon as one has started. -/
theorem Assembled.launched_iff (h : x.Assembled config) (E : Engine σ) (schedule : List Nat) :
    (x.follow E schedule).shared.coordinator.launched = true ↔
      ∃ w < config.numWorkers, .started ∈ x.milestones E schedule w := by
  have hy := h.fresh.standing.follow E schedule
  rw [(h.counted_follow E schedule).launched_iff]
  refine ⟨fun ⟨w, r, hr, hne⟩ => ?_, fun ⟨w, hw, hmem⟩ => ?_⟩
  · exact ⟨w, hy.lt_numWorkers hr, (h.passed_follow E schedule hr).started_iff.2 hne⟩
  · obtain ⟨r, hr⟩ := hy.exists_runner hw
    exact ⟨w, r, hr, (h.passed_follow E schedule hr).started_iff.1 hmem⟩

/-! ## Completions -/

/-- The periods of the sets of worker `v` that are completed along a schedule, by whichever worker
and as often as they are. -/
def completions (E : Engine σ) : Exchange σ → List Nat → Nat → List Nat
  | _, [], _ => []
  | x, i :: schedule, v =>
    x.shared.coordinator.completes (x.turn E i).shared.coordinator v ++
      completions E (x.turn E i) schedule v

/-- The sets of a worker are completed one after another, and each once. -/
theorem Standing.completions_eq (h : x.Standing config) (E : Engine σ) (schedule : List Nat)
    {v : Nat} (hv : v < config.numWorkers) : x.completions E schedule v =
      List.range' (x.shared.coordinator.box v).completed
        (((x.follow E schedule).shared.coordinator.box v).completed -
          (x.shared.coordinator.box v).completed) := by
  induction schedule generalizing x with
  | nil =>
    show [] = List.range' _ (_ - _)
    rw [Exchange.follow, List.foldl_nil, Nat.sub_self, List.range'_zero]
  | cons i schedule ih =>
    have hturn := h.turn E i
    have hlogs (y : Exchange σ) (hy : y.Standing config) := hy.logs v (hy.lt_mailboxes hv)
    have hle : (x.shared.coordinator.box v).completed ≤
        ((x.turn E i).shared.coordinator.box v).completed :=
      (h.grows_follow E [i] hv).completed_le (hlogs _ h) (hlogs _ hturn)
    have hle' := (hturn.grows_follow E schedule hv).completed_le (hlogs _ hturn)
      (hlogs _ (hturn.follow E schedule))
    have hcompletes : x.shared.coordinator.completes (x.turn E i).shared.coordinator v =
        List.range' (x.shared.coordinator.box v).completed
          (((x.turn E i).shared.coordinator.box v).completed -
            (x.shared.coordinator.box v).completed) :=
      (h.allGrows_follow E [i]).completes_eq h.logs hturn.logs (h.lt_mailboxes hv)
    rw [completions, ih hturn, hcompletes]
    exact range'_append_of_le hle hle'

/-- Every set that has been completed has been completed once. -/
theorem Fresh.completions_eq_range (h : x.Fresh config) (E : Engine σ) (schedule : List Nat) {v : Nat}
    (hv : v < config.numWorkers) : x.completions E schedule v =
      List.range ((x.follow E schedule).shared.coordinator.box v).completed := by
  have hzero : (x.shared.coordinator.box v).completed = 0 := by
    rw [h.box_eq v hv]
    rfl
  rw [h.standing.completions_eq E schedule hv, hzero, Nat.sub_zero, List.range_eq_range']

/-! ## The ways out -/

/-- Every way out leaves the exchange in order. After every schedule, and whatever the engines do:

* The coordinator counts the workers that have started and not stopped.
* Every complete set has been completed once.
* Every worker passes its milestones in one order. If its engine concludes it makes one report before
  its mailbox closes, else none. When it has signed off, it has started, closed its mailbox and
  stopped once, and all its sets are complete.
* A worker that signs off is counted, and one that closes its mailbox or signs off leaves the winner,
  the other mailboxes and all cursors alone. -/
theorem Assembled.ways_out (h : x.Assembled config) (E : Engine σ) (schedule : List Nat) :
    let y := x.follow E schedule
    let c := y.shared.coordinator
    let log := x.milestones E schedule
    let running := (Finset.range config.numWorkers).filter fun w =>
      .started ∈ log w ∧ .stopped ∉ log w
    (c.live = running.card ∧
      c.live? = if ∃ w < config.numWorkers, .started ∈ log w then some running.card else none) ∧
    (∀ v < config.numWorkers, ∃ m, c.mailbox v = .ok m ∧
      x.completions E schedule v = List.range m.completed) ∧
    ∀ (w : Nat) (r : Runner σ), y.runners[w]? = some r →
      (∃ ret, Milestone.IsReturn w r.worker.period ret ∧
        log w <+: .started :: ret ++ [.closed, .stopped] ∧
        (r.control.hasSignedOff = true → log w = .started :: ret ++ [.closed, .stopped] ∧
          ∃ m, c.mailbox w = .ok m ∧ m.isClosed = true ∧
            ∀ q s, m.set? q = some s → s.isCompleted = true)) ∧
      (∀ ending, r.control = .signingOff ending → c.stop.1 = .ok ()) ∧
      (r.control.isWithdrawing = true →
        let c' := (y.turn E w).shared.coordinator
        c'.winner? = c.winner? ∧ (∀ v ≠ w, c'.mailbox v = c.mailbox v) ∧
          ∀ v, (c'.mailbox v).map (·.cursors) = (c.mailbox v).map (·.cursors)) := by
  have hy := h.fresh.standing.follow E schedule
  have hcounted := h.counted_follow E schedule
  have hlive := hcounted.live_eq
  rw [h.running_eq E schedule] at hlive
  intro y c log running
  refine ⟨⟨hlive, ?_⟩, fun v hv => ?_, fun w r hr => ?_⟩
  · rw [Coordinator.live?, hlive]
    exact if_congr (h.launched_iff E schedule) rfl rfl
  · exact ⟨c.box v, Coordinator.mailbox_eq (hy.lt_mailboxes hv),
      h.fresh.completions_eq_range E schedule hv⟩
  · have hw := hy.lt_mailboxes (hy.lt_numWorkers hr)
    have hstands := hy.runner w r hr
    obtain ⟨ret, hret, hpre, hall⟩ := (h.passed_follow E schedule hr).isPrefix
    rw [hstands.id_eq] at hret
    refine ⟨⟨ret, hret, hpre, fun hoff => ⟨hall hoff, c.box w, Coordinator.mailbox_eq hw, ?_⟩⟩,
      fun ending hk => ?_, fun hout => ?_⟩
    · have hclosed : (c.box w).isClosed = true := by
        rw [← hstands.id_eq]
        exact hstands.fits.isClosed hoff
      refine ⟨hclosed, fun q s hs => ?_⟩
      rw [(hy.logs w hw).set?_completed_iff hs, Mailbox.completed, if_pos hclosed]
      exact Nat.lt_succ_of_le (Mailbox.set?_isSome_iff.1 (by rw [hs]; rfl))
    · rw [hcounted.stop_ok hr (by rw [hk]; rfl)]
    · have hid : r.worker.id < y.shared.coordinator.numWorkers := by rwa [hstands.id_eq]
      have hkeeps := Runner.withdraws (E := E) hout hid
      have hturn : (y.turn E w).shared.coordinator = (r.step E y.shared).2.coordinator := by
        rw [turn_of_some E hr, Runner.coordinator_turn]
      rw [← hturn, hstands.id_eq] at hkeeps
      exact hkeeps

/-- An engine that fails when its worker wants more clauses, in the middle of a boundary. The first
worker gets that far, whereas the second one concludes before. -/
theorem ways_out_scripted : ∃ (p : Portfolio Scripted) (E : Engine Scripted) (schedule : List Nat),
    p.toExchange.Assembled { numWorkers := 2, periodLength := 20 } ∧
    p.toExchange.milestones E schedule 0 = [.started, .closed, .stopped] ∧
    p.toExchange.milestones E schedule 1 = [.started, .returned .unsatisfiable,
      .reported ⟨.unsatisfiable, ⟨0, 1⟩⟩, .closed, .stopped] ∧
    (p.toExchange.follow E schedule).shared.coordinator.live? = some 0 ∧
    ∃ m, (p.toExchange.follow E schedule).shared.coordinator.mailbox 0 = .ok m ∧
      p.toExchange.completions E schedule 0 = List.range m.completed := by
  let E : Engine Scripted :=
    { Scripted.engine with relax := fun e => (.error (.engine "no more clauses"), e) }
  let schedule := (List.replicate 13 [0, 1]).flatten
  obtain ⟨p, hp, hcheck⟩ := exists_eq_ok_of_check
    (x := Portfolio.launch ([{ script := {} }, { script := { concludeSteps? := some 1 } }] :
      List Scripted) { numWorkers := 2, periodLength := 20 } {})
    (q := fun p =>
      let log := p.toExchange.milestones E schedule
      decide (log 0 = [.started, .closed, .stopped]) &&
        decide (log 1 = [.started, .returned .unsatisfiable,
          .reported ⟨.unsatisfiable, ⟨0, 1⟩⟩, .closed, .stopped]) &&
        decide ((p.toExchange.follow E schedule).shared.coordinator.live? = some 0))
    (by decide +kernel)
  simp only [Bool.and_eq_true, decide_eq_true_eq] at hcheck
  obtain ⟨⟨hfirst, hsecond⟩, hlive⟩ := hcheck
  have hassembled := Portfolio.assembled_of_launch hp
  obtain ⟨-, hcompletions, -⟩ := hassembled.ways_out E schedule
  exact ⟨p, E, schedule, hassembled, hfirst, hsecond, hlive, hcompletions 0 (by decide)⟩

end Exchange

end ClauseExchange
