import ClauseExchange.Portfolio
import ClauseExchange.Proofs.Exchange.Alike
import ClauseExchange.Proofs.Exchange.Clock
import ClauseExchange.Proofs.Exchange.Live

/-!
# The moves of the host

What a portfolio comes to depends on the turns of its workers alone. The host reads the channel and
the count of running workers, and it writes nothing that a worker reads: no step of a worker looks
at the channel (`Runner.exists_tells`), so the moves of the host can be left out
(`Portfolio.toExchange_after`).

The host waits for one notice a worker. `Portfolio.Heard` says that those it has received and those
that are on their way are as many as the workers that have finished. So it stops waiting when all
have finished, and in any case when it looks after all have left, or finds then that no notice is to
come. Only one thing can keep it from that: totals of the progress that do not fit a word when it
looks before.

* `Portfolio.host_eq_panicked_iff` says when the host breaks a rule.
* `Portfolio.Settled.outcome?_after` says that after the workers have left it comes to their result
  in any other case.
-/

namespace ClauseExchange

variable {σ : Type}

/-! ## Steps do not look at the channel -/

/-- The same with another channel. -/
def Shared.withChannel (s : Shared) (channel : Channel) : Shared := { s with channel }

/-- The same with another channel. -/
def Progression.withChannel (channel : Channel) : Progression σ → Progression σ
  | .moved stage p s => .moved stage p (s.withChannel channel)
  | .failed f p s => .failed f p (s.withChannel channel)

/-- Whether the statistics have been handed in. -/
def Control.isFinished : Control → Bool
  | .finished _ => true
  | _ => false

/-- In a boundary only entering a period tells the host something, and it sends no notice. -/
theorem Boundary.step_withChannel (E : Engine σ) (b : Boundary) (p : Post σ) (s : Shared) :
    ∃ say : Channel → Channel, ∀ channel,
      b.step E p (s.withChannel channel) = (b.step E p s).withChannel (say channel) ∧
        (say channel).notices = channel.notices := by
  have hmute (h : ∀ channel,
      b.step E p (s.withChannel channel) = (b.step E p s).withChannel channel) :
      ∃ say : Channel → Channel, ∀ channel,
        b.step E p (s.withChannel channel) = (b.step E p s).withChannel (say channel) ∧
          (say channel).notices = channel.notices := ⟨id, fun channel => ⟨h channel, rfl⟩⟩
  cases hb : b.stage with
  | exporting d =>
    refine hmute fun channel => ?_
    simp only [step, hb, stepExporting, Shared.withChannel]
    split
    · split <;> rfl
    · rfl
    · split <;> rfl
  | advancing =>
    refine hmute fun channel => ?_
    simp only [step, hb, stepAdvancing, Shared.withChannel]
    split
    · rfl
    · split <;> rfl
  | fetching offset t =>
    refine hmute fun channel => ?_
    simp only [step, hb, stepFetching, Shared.withChannel]
    split
    · split <;> rfl
    · rfl
  | reading offset t period =>
    refine hmute fun channel => ?_
    simp only [step, hb, stepReading, Shared.withChannel]
    split
    · rfl
    · split
      · rfl
      · split <;> rfl
  | acknowledging offset t period =>
    refine hmute fun channel => ?_
    simp only [step, hb, stepAcknowledging, Shared.withChannel]
    split <;> rfl
  | averaging t =>
    refine hmute fun channel => ?_
    simp only [step, hb, stepAveraging, Shared.withChannel]
    split
    · split
      · rfl
      · split <;> rfl
    · rfl
  | entering length =>
    simp only [step, hb, stepEntering, Shared.withChannel]
    cases p.worker.enter length with
    | error f => exact ⟨id, fun channel => ⟨rfl, rfl⟩⟩
    | ok w =>
      exact ⟨fun channel => channel.publish w.id (w.progress b.counters), fun _ => ⟨rfl, rfl⟩⟩
  | deciding =>
    refine hmute fun channel => ?_
    simp only [step, hb]
    rfl
  | answered goOn =>
    refine hmute fun channel => ?_
    simp only [step, hb]
    rfl

namespace Runner

variable (E : Engine σ) {r : Runner σ} {s : Shared}

/-- Nothing but handing in the statistics finishes a run. -/
theorem isFinished_step (hid : r.worker.id < s.coordinator.numWorkers)
    (hnot : ∀ verdict, r.control ≠ .handingIn verdict) :
    (r.step E s).1.control.isFinished = r.control.isFinished := by
  cases hr : r.control with
  | finished statistics =>
    simp only [step, hr]
  | _ =>
    cases hr' : (r.step E s).1.control with
    | finished statistics =>
      rcases (r.step_cases E s hid).finished_cases hr' with heq | ⟨verdict, hhanding⟩
      · rw [heq, hr] at hr'
        cases hr'
      · exact absurd hhanding (hnot verdict)
    | _ => rfl

/-- What a step tells the host: one notice if the statistics are handed in, and none otherwise. -/
def Tells (E : Engine σ) (r : Runner σ) (s : Shared) (say : Channel → Channel) : Prop :=
  ∀ channel, r.step E (s.withChannel channel) =
      ((r.step E s).1, (r.step E s).2.withChannel (say channel)) ∧
    (say channel).notices.length + (if r.control.isFinished then 1 else 0) =
      channel.notices.length + if (r.step E s).1.control.isFinished then 1 else 0

/-- No step of a runner looks at the channel. -/
theorem exists_tells (hid : r.worker.id < s.coordinator.numWorkers) : ∃ say, r.Tells E s say := by
  have hquiet (say : Channel → Channel) (hnot : ∀ verdict, r.control ≠ .handingIn verdict)
      (h : ∀ channel, r.step E (s.withChannel channel) =
          ((r.step E s).1, (r.step E s).2.withChannel (say channel)) ∧
        (say channel).notices = channel.notices) : ∃ say, r.Tells E s say := by
    refine ⟨say, fun channel => ⟨(h channel).1, ?_⟩⟩
    rw [isFinished_step E hid hnot, (h channel).2]
  cases hr : r.control with
  | handingIn verdict =>
    have htimes (channel : Channel) : (s.withChannel channel).times = s.times := rfl
    cases hfinal : r.finalStatistics E verdict (s.times r.worker.id) with
    | error f =>
      refine ⟨id, fun channel => ?_⟩
      simp only [step, hr, htimes, hfinal]
      exact ⟨rfl, rfl⟩
    | ok statistics =>
      refine ⟨fun channel => channel.send { worker := r.worker.id, statistics }, fun channel => ?_⟩
      simp only [step, hr, htimes, hfinal]
      refine ⟨rfl, ?_⟩
      simp [Channel.send, Queue.push, Queue.length, Control.isFinished, Nat.add_assoc]
  | boundary b =>
    by_cases hb : ∃ goOn, b.stage = .answered goOn
    · obtain ⟨goOn, hb⟩ := hb
      refine hquiet id (by simp [hr]) fun channel => ?_
      rw [step_answered E _ hr hb, step_answered E _ hr hb]
      exact ⟨rfl, rfl⟩
    · push Not at hb
      obtain ⟨say, hsay⟩ := b.step_withChannel E r.toPost s
      refine hquiet say (by simp [hr]) fun channel => ?_
      obtain ⟨hstep, hnotices⟩ := hsay channel
      rw [step_boundary E _ hr hb, step_boundary E _ hr hb, hstep]
      cases b.step E r.toPost s <;> exact ⟨rfl, hnotices⟩
  | _ =>
    refine hquiet id (by simp [hr]) fun channel => ?_
    simp only [step, hr, Shared.withChannel]
    exact ⟨rfl, rfl⟩

end Runner

/-! ## Turns and notices -/

namespace Exchange

variable {config : Config} {x : Exchange σ}

/-- The same with another channel. -/
def withChannel (x : Exchange σ) (channel : Channel) : Exchange σ :=
  { x with shared := x.shared.withChannel channel }

/-- The number of workers that have finished. -/
def finished (x : Exchange σ) : Nat := x.runners.countP (·.control.isFinished)

theorem Standing.withChannel (h : x.Standing config) (channel : Channel) :
    (x.withChannel channel).Standing config :=
  ⟨h.size_runners, h.numWorkers_eq, h.margin_eq, h.periodLength_eq, h.logs, h.next_le, h.runner⟩

/-- A turn does not look at the channel, on which it sends a notice if a worker finishes. -/
theorem Standing.turn_withChannel (h : x.Standing config) (E : Engine σ) (i : Nat)
    (channel : Channel) : ∃ channel',
      (x.withChannel channel).turn E i = (x.turn E i).withChannel channel' ∧
        channel'.notices.length + x.finished = channel.notices.length + (x.turn E i).finished := by
  cases hr : x.runners[i]? with
  | none =>
    have hr' : (x.withChannel channel).runners[i]? = none := hr
    rw [turn_of_none E hr, turn_of_none E hr']
    exact ⟨channel, rfl, rfl⟩
  | some r =>
    have hr' : (x.withChannel channel).runners[i]? = some r := hr
    have hid : r.worker.id < x.shared.coordinator.numWorkers := by
      rw [(h.runner i r hr).id_eq]
      exact h.lt_mailboxes (h.lt_numWorkers hr)
    obtain ⟨say, hsay⟩ := Runner.exists_tells E hid
    obtain ⟨hstep, hnotices⟩ := hsay channel
    refine ⟨say channel, ?_, ?_⟩
    · rw [turn_of_some E hr, turn_of_some E hr']
      show Exchange.mk (r.turn E (x.shared.withChannel channel)).2
        (x.runners.setIfInBounds i (r.step E (x.shared.withChannel channel)).1) = _
      rw [Runner.turn, hstep]
      rfl
    · obtain ⟨hi, rfl⟩ := Array.getElem?_eq_some_iff.1 hr
      have hle := Array.boole_getElem_le_countP (p := fun r : Runner σ => r.control.isFinished) hi
      rw [turn_of_some E hr, finished, finished, Array.setIfInBounds, dif_pos hi, Array.countP_set]
      omega

theorem Standing.notices_turn (h : x.Standing config) (E : Engine σ) (i : Nat) :
    (x.turn E i).shared.channel.notices.length + x.finished =
      x.shared.channel.notices.length + (x.turn E i).finished := by
  obtain ⟨channel, hturn, hnotices⟩ := h.turn_withChannel E i x.shared.channel
  have hsame : x.turn E i = (x.turn E i).withChannel channel := hturn
  rw [congrArg (fun y : Exchange σ => y.shared.channel) hsame]
  exact hnotices

/-- Nobody runs when all have left. -/
theorem Counted.live?_of_isOver (h : x.Counted) (hpos : 0 < x.runners.size)
    (hover : x.isOver = true) : x.shared.coordinator.live? = some 0 := by
  have hover' {i : Nat} {r : Runner σ} (hr : x.runners[i]? = some r) : r.control.isOver = true := by
    obtain ⟨hi, rfl⟩ := Array.getElem?_eq_some_iff.1 hr
    exact Array.all_eq_true.1 hover i hi
  have hlaunched : x.shared.coordinator.launched = true := by
    refine h.launched_iff.2 ⟨0, x.runners[0], Array.getElem?_eq_getElem hpos, fun hready => ?_⟩
    have := hover' (Array.getElem?_eq_getElem hpos)
    rw [hready] at this
    cases this
  have hnone : x.running = ∅ := by
    refine Finset.eq_empty_of_forall_notMem fun i hi => ?_
    have hsize := Finset.mem_range.1 (Finset.mem_filter.1 hi).1
    have hr := Array.getElem?_eq_getElem hsize
    have hleft := hover' hr
    rw [mem_running hr] at hi
    cases hcontrol : x.runners[i].control with
    | finished | panicked =>
      rw [hcontrol] at hi
      cases hi
    | _ =>
      rw [hcontrol] at hleft
      cases hleft
  rw [Coordinator.live?, if_pos hlaunched, h.live_eq, hnone, Finset.card_empty]

/-- Once all have left, nothing happens any more to the workers and to the coordinator. -/
theorem follow_of_isOver (E : Engine σ) (hover : x.isOver = true) (t : List Nat) :
    (x.follow E t).runners = x.runners ∧
      (x.follow E t).shared.coordinator = x.shared.coordinator := by
  induction t generalizing x with
  | nil => exact ⟨rfl, rfl⟩
  | cons i t ih =>
    have hturn : (x.turn E i).runners = x.runners ∧
        (x.turn E i).shared.coordinator = x.shared.coordinator := by
      cases hr : x.runners[i]? with
      | none => rw [turn_of_none E hr]; exact ⟨rfl, rfl⟩
      | some r =>
        obtain ⟨hi, rfl⟩ := Array.getElem?_eq_some_iff.1 hr
        have hleft : x.runners[i].isOver = true := Array.all_eq_true.1 hover i hi
        obtain ⟨hrunners, hcoordinator, -, -⟩ :=
          turn_of_not_canStep E hr (by rw [Runner.canStep, hleft]; rfl)
        exact ⟨hrunners, hcoordinator⟩
    obtain ⟨hrunners, hcoordinator⟩ := ih (x := x.turn E i) (by rwa [isOver, hturn.1])
    exact ⟨hrunners.trans hturn.1, hcoordinator.trans hturn.2⟩

end Exchange

/-! ## Moves -/

/-- What a portfolio comes to whose workers have all left. -/
def Exchange.outcome (E : Engine σ) (x : Exchange σ) (elapsed : Duration) :
    Except Failure PortfolioResult := (⟨x, .joining⟩ : Portfolio σ).collect E elapsed

/-- The workers whose turn it is in the course of some moves. -/
def Move.turns (moves : List Move) : List Nat :=
  moves.filterMap fun
    | .worker id => some id
    | _ => none

namespace Portfolio

variable {config : Config} {p : Portfolio σ}

/-- The state after a list of moves. -/
def after (E : Engine σ) (p : Portfolio σ) (moves : List Move) : Portfolio σ :=
  moves.foldl (move E) p

theorem after_nil (E : Engine σ) (p : Portfolio σ) : p.after E [] = p := rfl

theorem after_append (E : Engine σ) (p : Portfolio σ) (s t : List Move) :
    p.after E (s ++ t) = (p.after E s).after E t := List.foldl_append

theorem after_concat (E : Engine σ) (p : Portfolio σ) (s : List Move) (m : Move) :
    p.after E (s ++ [m]) = (p.after E s).move E m := after_append E p s [m]

/-- The host, which waits and sees a worker run, finds totals that it cannot log. -/
structure FailsToLog (p : Portfolio σ) (f : Fault) : Prop where
  waiting : ∃ received, p.host = .waiting received
  live : p.shared.coordinator.live? ≠ some 0
  totals : p.shared.channel.totals = .error f

/-- A host that waits receives the next notice, if there is one. -/
theorem receive_cases (E : Engine σ) (p : Portfolio σ) :
    (∃ n notice channel, p.host = .waiting n ∧
      p.shared.channel.receive = some (notice, channel) ∧
      p.move E .receive =
        ⟨p.toExchange.withChannel channel, hostAfter p.runners.size (n + 1)⟩) ∨
    p.move E .receive = p ∧ ∀ n, p.host = .waiting n → p.shared.channel.receive = none := by
  cases hhost : p.host with
  | waiting n =>
    cases hreceive : p.shared.channel.receive with
    | none =>
      refine .inr ⟨?_, fun _ _ => rfl⟩
      simp only [move, hhost, hreceive]
    | some pair =>
      refine .inl ⟨n, pair.1, pair.2, rfl, rfl, ?_⟩
      simp only [move, hhost, hreceive]
      rfl
  | joining | panicked =>
    refine .inr ⟨?_, fun n hn => by cases hn⟩
    simp only [move, hhost]

/-- A host that waits and looks stops waiting if no worker runs, breaks a rule if it cannot log the
totals, or goes on waiting. -/
theorem lookUp_cases (E : Engine σ) (p : Portfolio σ) :
    ((∃ n, p.host = .waiting n) ∧ p.shared.coordinator.live? = some 0 ∧
      p.move E .lookUp = { p with host := .joining }) ∨
    (∃ f, p.FailsToLog f ∧ p.move E .lookUp = { p with host := .panicked f }) ∨
    p.move E .lookUp = p ∧ ∀ n, p.host = .waiting n →
      p.shared.coordinator.live? ≠ some 0 ∧ ∃ totals, p.shared.channel.totals = .ok totals := by
  cases hhost : p.host with
  | waiting n =>
    by_cases hlive : p.shared.coordinator.live? = some 0
    · refine .inl ⟨⟨n, rfl⟩, hlive, ?_⟩
      simp only [move, hhost, if_pos hlive]
    · cases htotals : p.shared.channel.totals with
      | error f =>
        refine .inr (.inl ⟨f, ⟨⟨n, hhost⟩, hlive, htotals⟩, ?_⟩)
        simp only [move, hhost, if_neg hlive, htotals]
      | ok totals =>
        refine .inr (.inr ⟨?_, fun _ _ => ⟨hlive, totals, rfl⟩⟩)
        simp only [move, hhost, if_neg hlive, htotals]
  | joining | panicked =>
    refine .inr (.inr ⟨?_, fun n hn => by cases hn⟩)
    simp only [move, hhost]

/-- A host that waits finds that all have hung up once the workers have left and no notice is left. -/
theorem hangUp_cases (E : Engine σ) (p : Portfolio σ) :
    ((∃ n, p.host = .waiting n) ∧ p.isOver = true ∧
      p.move E .hangUp = { p with host := .joining }) ∨
    p.move E .hangUp = p ∧ ∀ n, p.host = .waiting n → p.isOver = true →
      p.shared.channel.receive ≠ none := by
  cases hhost : p.host with
  | waiting n =>
    cases hreceive : p.shared.channel.receive with
    | none =>
      by_cases hover : p.isOver = true
      · refine .inl ⟨⟨n, rfl⟩, hover, ?_⟩
        simp only [move, hhost, hreceive, if_pos hover]
      · refine .inr ⟨?_, fun _ _ h => absurd h hover⟩
        simp only [move, hhost, hreceive, if_neg hover]
    | some pair =>
      refine .inr ⟨?_, fun _ _ _ => Option.some_ne_none pair⟩
      simp only [move, hhost, hreceive]
  | joining | panicked =>
    refine .inr ⟨?_, fun n hn => by cases hn⟩
    simp only [move, hhost]

/-- What the host collects depends on the workers and the coordinator alone. -/
theorem collect_congr {q : Portfolio σ} (hrunners : q.runners = p.runners)
    (hcoordinator : q.shared.coordinator = p.shared.coordinator) (E : Engine σ)
    (elapsed : Duration) : q.collect E elapsed = p.collect E elapsed := by
  unfold collect firstPanicked winningModel winningEngine?
  rw [hrunners, hcoordinator]

/-- Apart from the channel a portfolio is where the turns of its workers have taken it. -/
theorem toExchange_after (h : p.toExchange.Standing config) (E : Engine σ) (moves : List Move) :
    ∃ channel, (p.after E moves).toExchange =
      (p.toExchange.follow E (Move.turns moves)).withChannel channel := by
  induction moves using List.reverseRecOn with
  | nil => exact ⟨p.shared.channel, rfl⟩
  | append_singleton moves m ih =>
    obtain ⟨channel, ih⟩ := ih
    have hturns : Move.turns (moves ++ [m]) = Move.turns moves ++ Move.turns [m] :=
      List.filterMap_append
    rw [after_concat, hturns, Exchange.follow_append]
    cases m with
    | worker i =>
      obtain ⟨channel', hturn, -⟩ :=
        (h.follow E (Move.turns moves)).turn_withChannel E i channel
      refine ⟨channel', ?_⟩
      show (p.after E moves).toExchange.turn E i = _
      rw [ih, hturn]
      rfl
    | receive =>
      rcases receive_cases E (p.after E moves) with ⟨n, notice, channel', -, -, heq⟩ | ⟨heq, -⟩
      · exact ⟨channel', by rw [heq, ih]; rfl⟩
      · exact ⟨channel, by rw [heq, ih]; rfl⟩
    | lookUp =>
      refine ⟨channel, ?_⟩
      rcases lookUp_cases E (p.after E moves) with ⟨-, -, heq⟩ | ⟨f, -, heq⟩ | ⟨heq, -⟩ <;>
        rw [heq, ih] <;> rfl
    | hangUp =>
      refine ⟨channel, ?_⟩
      rcases hangUp_cases E (p.after E moves) with ⟨-, -, heq⟩ | ⟨heq, -⟩ <;> rw [heq, ih] <;> rfl

/-- So are its workers -/
theorem runners_after (h : p.toExchange.Standing config) (E : Engine σ) (moves : List Move) :
    (p.after E moves).runners = (p.toExchange.follow E (Move.turns moves)).runners := by
  obtain ⟨channel, heq⟩ := toExchange_after h E moves
  rw [heq]
  rfl

/-- and its coordinator. -/
theorem coordinator_after (h : p.toExchange.Standing config) (E : Engine σ) (moves : List Move) :
    (p.after E moves).shared.coordinator =
      (p.toExchange.follow E (Move.turns moves)).shared.coordinator := by
  obtain ⟨channel, heq⟩ := toExchange_after h E moves
  rw [heq]
  rfl

theorem standing_after (h : p.toExchange.Standing config) (E : Engine σ) (moves : List Move) :
    (p.after E moves).toExchange.Standing config := by
  obtain ⟨channel, heq⟩ := toExchange_after h E moves
  rw [heq]
  exact (h.follow E (Move.turns moves)).withChannel channel

/-! ## The notices -/

/-- A host that waits has received the notices of all workers that have finished, or they are on
their way. -/
def Heard (p : Portfolio σ) : Prop :=
  ∀ received, p.host = .waiting received → received < p.runners.size ∧
    received + p.shared.channel.notices.length = p.toExchange.finished

theorem waiting_of_hostAfter {workers n received : Nat}
    (h : hostAfter workers n = .waiting received) : received = n ∧ received < workers := by
  unfold hostAfter at h
  split at h
  · obtain rfl := Host.waiting.inj h
    exact ⟨rfl, ‹_›⟩
  · cases h

/-- Receiving takes one notice off the channel. -/
theorem length_of_receive {channel channel' : Channel} {notice : Notice}
    (h : channel.receive = some (notice, channel')) :
    channel.notices.length = channel'.notices.length + 1 := by
  obtain ⟨⟨notice', notices⟩, hpop, heq⟩ := Option.map_eq_some_iff.1 h
  cases heq
  exact Queue.length_of_pop? hpop

/-- Every move keeps the account of the notices. -/
theorem Heard.move (h : p.Heard) (hp : p.toExchange.Standing config) (E : Engine σ) (m : Move) :
    (p.move E m).Heard := by
  intro received hhost
  cases m with
  | worker i =>
    obtain ⟨hlt, hsum⟩ := h received hhost
    have hnotices := hp.notices_turn E i
    refine ⟨?_, ?_⟩
    · show received < (p.toExchange.turn E i).runners.size
      rw [(hp.turn E i).size_runners, ← hp.size_runners]
      exact hlt
    · show received + (p.toExchange.turn E i).shared.channel.notices.length =
        (p.toExchange.turn E i).finished
      omega
  | lookUp =>
    rcases lookUp_cases E p with ⟨-, -, heq⟩ | ⟨f, -, heq⟩ | ⟨heq, -⟩ <;> rw [heq] at hhost ⊢
    · cases hhost
    · cases hhost
    · exact h received hhost
  | hangUp =>
    rcases hangUp_cases E p with ⟨-, -, heq⟩ | ⟨heq, -⟩ <;> rw [heq] at hhost ⊢
    · cases hhost
    · exact h received hhost
  | receive =>
    rcases receive_cases E p with ⟨n, notice, channel, hwaiting, hreceive, heq⟩ | ⟨heq, -⟩ <;>
      rw [heq] at hhost ⊢
    · obtain ⟨rfl, hlt⟩ := waiting_of_hostAfter hhost
      obtain ⟨-, hsum⟩ := h n hwaiting
      have hlength := length_of_receive hreceive
      refine ⟨hlt, ?_⟩
      show n + 1 + channel.notices.length = p.toExchange.finished
      omega
    · exact h received hhost

theorem Heard.after (h : p.Heard) (hp : p.toExchange.Standing config) (E : Engine σ)
    (moves : List Move) : (p.after E moves).Heard := by
  induction moves using List.reverseRecOn with
  | nil => exact h
  | append_singleton moves m ih =>
    rw [after_concat]
    exact ih.move (standing_after hp E moves) E m

/-! ## Where the host gets to -/

/-- A host that has broken a rule, or waits for the workers to leave, stays so. -/
theorem host_after_of_not_waiting (E : Engine σ) (hp : ∀ n, p.host ≠ .waiting n)
    (moves : List Move) : (p.after E moves).host = p.host := by
  induction moves using List.reverseRecOn with
  | nil => rfl
  | append_singleton moves m ih =>
    rw [after_concat, ← ih]
    rw [← ih] at hp
    cases m with
    | worker i => rfl
    | receive =>
      rcases receive_cases E (p.after E moves) with ⟨n, -, -, hwaiting, -⟩ | ⟨heq, -⟩
      · exact absurd hwaiting (hp n)
      · rw [heq]
    | lookUp =>
      rcases lookUp_cases E (p.after E moves) with ⟨⟨n, hwaiting⟩, -⟩ | ⟨f, hf, -⟩ | ⟨heq, -⟩
      · exact absurd hwaiting (hp n)
      · obtain ⟨n, hwaiting⟩ := hf.waiting
        exact absurd hwaiting (hp n)
      · rw [heq]
    | hangUp =>
      rcases hangUp_cases E (p.after E moves) with ⟨⟨n, hwaiting⟩, -⟩ | ⟨heq, -⟩
      · exact absurd hwaiting (hp n)
      · rw [heq]

/-- A host that stops waiting does not wait again. -/
theorem joins_after (E : Engine σ) {before rest : List Move} {m : Move}
    (hjoins : ((p.after E before).move E m).host = .joining) :
    (p.after E (before ++ m :: rest)).host = .joining := by
  rw [after_append]
  show (((p.after E before).move E m).after E rest).host = _
  rw [host_after_of_not_waiting E (by rw [hjoins]; simp), hjoins]

/-- A host breaks a rule only when it looks and cannot log the totals. -/
theorem host_eq_panicked_iff (E : Engine σ) (hp : ∀ f, p.host ≠ .panicked f) (moves : List Move)
    (f : Fault) : (p.after E moves).host = .panicked f ↔
      ∃ before rest, moves = before ++ .lookUp :: rest ∧ (p.after E before).FailsToLog f := by
  constructor
  · intro hhost
    induction moves using List.reverseRecOn with
    | nil => exact absurd hhost (hp f)
    | append_singleton moves m ih =>
      have hearlier (h : (p.after E moves).host = .panicked f) :
          ∃ before rest, moves ++ [m] = before ++ .lookUp :: rest ∧
            (p.after E before).FailsToLog f := by
        obtain ⟨before, rest, rfl, hfails⟩ := ih h
        exact ⟨before, rest ++ [m], by simp, hfails⟩
      rw [after_concat] at hhost
      cases m with
      | worker i => exact hearlier hhost
      | receive =>
        rcases receive_cases E (p.after E moves) with ⟨n, _, _, -, -, heq⟩ | ⟨heq, -⟩ <;>
          rw [heq] at hhost
        · unfold hostAfter at hhost
          split at hhost <;> cases hhost
        · exact hearlier hhost
      | lookUp =>
        rcases lookUp_cases E (p.after E moves) with ⟨-, -, heq⟩ | ⟨f', hfails, heq⟩ | ⟨heq, -⟩ <;>
          rw [heq] at hhost
        · cases hhost
        · obtain rfl := Host.panicked.inj hhost
          exact ⟨moves, [], rfl, hfails⟩
        · exact hearlier hhost
      | hangUp =>
        rcases hangUp_cases E (p.after E moves) with ⟨-, -, heq⟩ | ⟨heq, -⟩ <;> rw [heq] at hhost
        · cases hhost
        · exact hearlier hhost
  · rintro ⟨before, rest, rfl, hfails⟩
    have hhost : ((p.after E before).move E .lookUp).host = .panicked f := by
      obtain ⟨n, hwaiting⟩ := hfails.waiting
      rcases lookUp_cases E (p.after E before) with ⟨-, hlive, -⟩ | ⟨f', hfails', heq⟩ | ⟨-, hok⟩
      · exact absurd hlive hfails.live
      · rw [heq, Except.error.inj (hfails.totals.symm.trans hfails'.totals)]
      · obtain ⟨-, totals, htotals⟩ := hok n hwaiting
        cases hfails.totals.symm.trans htotals
    rw [after_append]
    show (((p.after E before).move E .lookUp).after E rest).host = _
    rw [host_after_of_not_waiting E (by rw [hhost]; simp), hhost]

/-! ## After all workers have left -/

/-- The workers have left and the host has not broken a rule. -/
structure Settled (config : Config) (p : Portfolio σ) : Prop where
  standing : p.toExchange.Standing config
  isOver : p.isOver = true
  live : p.shared.coordinator.live? = some 0
  heard : p.Heard
  sound : ∀ f, p.host ≠ .panicked f

namespace Settled

variable (h : p.Settled config) (E : Engine σ) (more : List Move)
include h

/-- Nothing happens any more to the workers -/
theorem runners_eq : (p.after E more).runners = p.runners := by
  rw [runners_after h.standing, (Exchange.follow_of_isOver E h.isOver _).1]

/-- and to the coordinator. -/
theorem coordinator_eq : (p.after E more).shared.coordinator = p.shared.coordinator := by
  rw [coordinator_after h.standing, (Exchange.follow_of_isOver E h.isOver _).2]

theorem live_after : (p.after E more).shared.coordinator.live? = some 0 := by
  rw [h.coordinator_eq]
  exact h.live

theorem isOver_after : (p.after E more).isOver = true := by
  have hover := h.isOver
  rwa [Exchange.isOver, ← h.runners_eq E more] at hover

/-- No look can fail any more, -/
theorem sound_after (f : Fault) : (p.after E more).host ≠ .panicked f := by
  intro hhost
  obtain ⟨before, rest, -, hfails⟩ := (host_eq_panicked_iff E h.sound more f).1 hhost
  exact hfails.live (h.live_after E before)

/-- A host that waits, and to which no notice is left, has received all that were sent. -/
theorem received_of_empty {n : Nat} (hhost : (p.after E more).host = .waiting n)
    (hempty : (p.after E more).shared.channel.receive = none) : n = p.toExchange.finished := by
  obtain ⟨-, hsum⟩ := h.heard.after h.standing E more n hhost
  have hnone := Queue.toList_of_pop?_eq_none (Option.map_eq_none_iff.1 hempty)
  have hzero := congrArg List.length hnone
  rw [Queue.length_toList, List.length_nil] at hzero
  rwa [hzero, Nat.add_zero, Exchange.finished, h.runners_eq, ← Exchange.finished] at hsum

/-- A host that goes on waiting has received as many notices as it has tried to, or all that were
sent. -/
theorem le_received {n : Nat} (hhost : (p.after E more).host = .waiting n) :
    min (more.count .receive) p.toExchange.finished ≤ n := by
  induction more using List.reverseRecOn generalizing n with
  | nil => exact (Nat.min_le_left _ _).trans (Nat.zero_le n)
  | append_singleton more m ih =>
    rw [after_concat] at hhost
    rw [List.count_append]
    cases m with
    | worker i => exact ih hhost
    | lookUp =>
      rcases lookUp_cases E (p.after E more) with ⟨-, -, heq⟩ | ⟨f, -, heq⟩ | ⟨heq, -⟩ <;>
        rw [heq] at hhost
      · cases hhost
      · cases hhost
      · exact ih hhost
    | hangUp =>
      rcases hangUp_cases E (p.after E more) with ⟨-, -, heq⟩ | ⟨heq, -⟩ <;> rw [heq] at hhost
      · cases hhost
      · exact ih hhost
    | receive =>
      rcases receive_cases E (p.after E more) with ⟨k, _, _, hwaiting, -, heq⟩ | ⟨heq, hnone⟩ <;>
        rw [heq] at hhost
      · obtain ⟨rfl, -⟩ := waiting_of_hostAfter hhost
        have hreceived := ih hwaiting
        rw [List.count_singleton_self]
        omega
      · rw [h.received_of_empty E more hhost (hnone n hhost)]
        exact Nat.min_le_right _ _

/-- the next look ends the waiting, -/
theorem joins_of_lookUp (hmem : Move.lookUp ∈ more) : (p.after E more).host = .joining := by
  obtain ⟨before, rest, rfl⟩ := List.append_of_mem hmem
  refine joins_after E ?_
  rcases lookUp_cases E (p.after E before) with ⟨-, -, heq⟩ | ⟨f, hfails, -⟩ | ⟨heq, hlive⟩
  · rw [heq]
  · exact absurd (h.live_after E before) hfails.live
  · rw [heq]
    cases hhost : (p.after E before).host with
    | waiting n => exact absurd (h.live_after E before) (hlive n hhost).1
    | joining => rfl
    | panicked f => exact absurd hhost (h.sound_after E before f)

/-- so does finding that all have hung up, once the notices have been received, -/
theorem joins_of_hangUp {before : List Move} (rest : List Move)
    (hcount : p.runners.size ≤ before.count .receive) :
    (p.after E (before ++ .hangUp :: rest)).host = .joining := by
  refine joins_after E ?_
  rcases hangUp_cases E (p.after E before) with ⟨-, -, heq⟩ | ⟨heq, hleft⟩
  · rw [heq]
  · rw [heq]
    cases hhost : (p.after E before).host with
    | joining => rfl
    | panicked f => exact absurd hhost (h.sound_after E before f)
    | waiting n =>
      -- all notices that were sent have been received
      have hreceived := h.le_received E before hhost
      have hfinished : p.toExchange.finished ≤ p.runners.size := Array.countP_le_size
      obtain ⟨-, hsum⟩ := h.heard.after h.standing E before n hhost
      rw [Exchange.finished, h.runners_eq, ← Exchange.finished] at hsum
      obtain ⟨pair, hpair⟩ := Option.ne_none_iff_exists'.1 (hleft n hhost (h.isOver_after E before))
      have hone := length_of_receive hpair
      omega

/-- and without either it ends once the notices have been received, if every worker sends one. -/
theorem joins_of_receive (hall : p.toExchange.finished = p.runners.size)
    (hcount : p.runners.size ≤ more.count .receive) : (p.after E more).host = .joining := by
  cases hhost : (p.after E more).host with
  | joining => rfl
  | panicked f => exact absurd hhost (h.sound_after E more f)
  | waiting n =>
    obtain ⟨hlt, -⟩ := h.heard.after h.standing E more n hhost
    have hreceived := h.le_received E more hhost
    rw [h.runners_eq] at hlt
    omega

/-- Whatever the host does, it comes to the result of the workers. -/
theorem outcome?_after (elapsed : Duration) : (p.after E more).outcome? E elapsed =
    if (p.after E more).host = .joining then some (p.toExchange.outcome E elapsed) else none := by
  unfold outcome?
  cases hhost : (p.after E more).host with
  | waiting n => exact (if_neg (by simp)).symm
  | joining =>
    dsimp only
    rw [if_pos rfl, if_pos (h.isOver_after E more)]
    exact congrArg some (collect_congr (h.runners_eq E more) (h.coordinator_eq E more) E elapsed)
  | panicked f => exact absurd hhost (h.sound_after E more f)

end Settled

/-! ## From the launch on -/

variable {engines : List σ} {sensors : Sensors}

theorem numWorkers_pos_of_launch (h : launch engines config sensors = .ok p) :
    0 < config.numWorkers := by
  have hcreate := (assembled_of_launch h).create_eq
  unfold Coordinator.create at hcreate
  split at hcreate
  · cases hcreate
  · omega

/-- Nobody has finished at the beginning, and nothing is on its way. -/
theorem heard_of_launch (h : launch engines config sensors = .ok p) : p.Heard := by
  intro received hhost
  have hassembled := assembled_of_launch h
  obtain ⟨hwaiting, hchannel⟩ := host_of_launch h
  obtain ⟨rfl, hlt⟩ := waiting_of_hostAfter (hwaiting.symm.trans hhost)
  refine ⟨by rw [hassembled.size_runners]; exact hlt, ?_⟩
  have hnone : p.toExchange.finished = 0 := by
    refine Array.countP_eq_zero.2 fun r hr => ?_
    obtain ⟨i, hi, rfl⟩ := Array.getElem_of_mem hr
    rw [hassembled.control_eq i _ (Array.getElem?_eq_getElem hi)]
    exact Bool.false_ne_true
  rw [hchannel, hnone]
  rfl

/-- A portfolio whose workers have all left is settled, unless its host has broken a rule. -/
theorem settled_of_launch (h : launch engines config sensors = .ok p) (E : Engine σ)
    {moves : List Move} (hover : (p.after E moves).isOver = true)
    (hsound : ∀ f, (p.after E moves).host ≠ .panicked f) :
    (p.after E moves).Settled config := by
  have hassembled := assembled_of_launch h
  have hstanding := hassembled.fresh.standing
  refine ⟨standing_after hstanding E moves, hover, ?_, (heard_of_launch h).after hstanding E moves,
    hsound⟩
  obtain ⟨channel, heq⟩ := toExchange_after hstanding E moves
  have hover' : (p.toExchange.follow E (Move.turns moves)).isOver = true := by
    rw [heq] at hover
    exact hover
  rw [heq]
  refine (hassembled.counted_follow E (Move.turns moves)).live?_of_isOver ?_ hover'
  rw [(hstanding.follow E _).size_runners]
  exact numWorkers_pos_of_launch h

end Portfolio

end ClauseExchange
