import ClauseExchange.Boundary

/-!
# The run of one worker

A runner drives one engine from its start to its end: it registers with the coordinator, answers
the engine's requests, reports the engine's verdict, closes the worker's mailbox and signs off.

A runner whose engine or worker breaks a rule unwinds: it makes no report, but it still closes the
mailbox and signs off, so that no other worker waits for it. Each `Runner.step` makes at most one
call on what the workers share. A runner that waits for another worker's open set, or whose run is
over, stays as it is; `Runner.canStep` says whether it does not.

A turn of a runner is a step, at whose end its stopwatch is set to the phase that follows. The times
that the stopwatches show go into the statistics; nothing else is done with them.
-/

namespace ClauseExchange

/-- How a run ends. -/
inductive Ending
  /-- The engine concluded. -/
  | concluded (verdict : Verdict)
  /-- A rule was broken. -/
  | broken (fault : Fault)
  deriving DecidableEq, Repr

/-- Where a runner stands. -/
inductive Control
  /-- About to register with the coordinator. -/
  | ready
  /-- The engine searches. -/
  | searching
  /-- The engine waits for the end of the period. -/
  | boundary (boundary : Boundary)
  /-- About to report the engine's verdict. -/
  | reporting (verdict : Verdict)
  /-- The report is made; about to close the mailbox. -/
  | closing (verdict : Verdict)
  /-- On the way out; about to make sure that the mailbox is closed. -/
  | leaving (ending : Ending)
  /-- On the way out; about to sign off. -/
  | signingOff (ending : Ending)
  /-- Signed off; about to hand in the statistics. -/
  | handingIn (verdict : Verdict)
  /-- The run is over, with the statistics handed in. -/
  | finished (statistics : WorkerStatistics)
  /-- The run is over because a rule was broken. -/
  | panicked (fault : Fault)
  deriving DecidableEq, Repr

/-- What a worker spends its time on, unless it waits; its stopwatch runs while its engine
searches. -/
def Control.phase? : Control → Option Phase
  | searching => some .running
  | boundary b => some b.stage.phase
  | _ => none

/-- Whether the run is over. -/
def Control.isOver : Control → Bool
  | finished _ | panicked _ => true
  | _ => false

/-- A worker and its engine in the course of their run. -/
structure Runner (σ : Type) extends Post σ where
  control : Control := .ready

namespace Runner

variable {σ : Type}

/-- Whether the run is over. -/
def isOver (r : Runner σ) : Bool := r.control.isOver

/-- Replies to the engine. -/
def reply (E : Engine σ) (r : Runner σ) (answer : Reply) : Runner σ :=
  { r with engine := E.resume r.engine answer, control := .searching }

/-- Unwinds because a rule was broken. -/
def unwind (r : Runner σ) (f : Fault) : Runner σ :=
  { r with control := .leaving (.broken f) }

/-- Carries out the engine's request, which involves no other worker. -/
def serve (E : Engine σ) (r : Runner σ) (times : PhaseTimes) : Runner σ :=
  match E.request r.engine with
  | .observe => r.reply E (.seen (r.worker.view times))
  | .addWork units => { r with worker := r.worker.addWork units }.reply E .done
  | .exportCandidate c quality =>
    { r with worker := r.worker.exportCandidate c quality }.reply E .done
  | .checkPeriod =>
    match r.toPost.arrive E with
    | .error f => r.unwind f
    | .ok b => { r with control := .boundary b }
  | .shouldApply =>
    match r.worker.shouldApply with
    | (.error f, worker) => { r with worker }.unwind f
    | (.ok yes, worker) => { r with worker }.reply E (.answer yes)
  | .takeImported =>
    let (batch, worker) := r.worker.takeImported
    { r with worker }.reply E (.taken batch)
  | .applyImported =>
    match r.toPost.applyImported E with
    | (.error f, p) => { r with toPost := p }.unwind f
    | (.ok outcome, p) => { r with toPost := p }.reply E (.applied outcome)
  | .conclude verdict => { r with control := .reporting verdict }
  | .fail f => r.unwind f

/-- The final statistics of a worker whose engine concluded. -/
def finalStatistics (E : Engine σ) (r : Runner σ) (verdict : Verdict) (times : PhaseTimes) :
    Except Fault WorkerStatistics :=
  match E.statistics r.engine with
  | .error f => .error f
  | .ok engine =>
    (E.exportThreshold r.engine).map fun exportThreshold =>
      { r.worker.statistics times with verdict, engine, exportThreshold }

/-- Goes on to `next` if a call succeeded, else unwinds. -/
def settle {α : Type} (r : Runner σ) (result : Except Fault α) (next : Control) : Runner σ :=
  match result with
  | .error f => r.unwind f
  | .ok _ => { r with control := next }

/-- Whether the worker waits for an open set. -/
def isWaiting (r : Runner σ) (c : Coordinator) : Bool :=
  match r.control with
  | .boundary b => b.isWaiting r.worker c
  | _ => false

/-- Whether the run goes on and the worker does not wait. -/
def canStep (r : Runner σ) (c : Coordinator) : Bool := !r.isOver && !r.isWaiting c

/-- Where a runner goes on after it has signed off. -/
def afterSignOff (ending : Ending) : Except Fault Unit → Control
  | .error f => .panicked f
  | .ok () =>
    match ending with
    | .broken f => .panicked f
    | .concluded verdict => .handingIn verdict

/-- One step of a run. -/
def step (E : Engine σ) (r : Runner σ) (s : Shared) : Runner σ × Shared :=
  match r.control with
  | .ready =>
    let (result, coordinator) := s.coordinator.start
    (r.settle result .searching, { s with coordinator })
  | .searching => (r.serve E (s.times r.worker.id), s)
  | .boundary b =>
    match b.stage with
    | .answered goOn => (r.reply E (.answer goOn), s)
    | _ =>
      match b.step E r.toPost s with
      | .moved stage p s => ({ toPost := p, control := .boundary { b with stage } }, s)
      | .failed f p s => ({ toPost := p, control := .leaving (.broken f) }, s)
  | .reporting verdict =>
    let (result, coordinator) := s.coordinator.report ⟨verdict, ⟨r.worker.period, r.worker.id⟩⟩
    (r.settle result (.closing verdict), { s with coordinator })
  | .closing verdict =>
    let (result, coordinator) := s.coordinator.close r.worker.id r.worker.periodLength
    (r.settle result (.leaving (.concluded verdict)), { s with coordinator })
  | .leaving ending =>
    let length := s.coordinator.periodLength
    let (_, coordinator) := s.coordinator.close r.worker.id length
    ({ r with control := .signingOff ending }, { s with coordinator })
  | .signingOff ending =>
    let (result, coordinator) := s.coordinator.stop
    ({ r with control := afterSignOff ending result }, { s with coordinator })
  | .handingIn verdict =>
    match r.finalStatistics E verdict (s.times r.worker.id) with
    | .error f => ({ r with control := .panicked f }, s)
    | .ok statistics =>
      ({ r with control := .finished statistics },
        { s with channel := s.channel.send { worker := r.worker.id, statistics } })
  | .finished _ => (r, s)
  | .panicked _ => (r, s)

/-- The turn of a runner. A worker that waits, and can do nothing else, is charged for waiting. -/
def turn (E : Engine σ) (r : Runner σ) (s : Shared) : Runner σ × Shared :=
  let waits := r.isWaiting s.coordinator
  let (r, s) := r.step E s
  let phase? := if waits then some .waiting else r.control.phase?
  (r, { s with sensors := s.sensors.attend r.worker.id phase? })

/-- Takes up to `fuel` turns, until the worker has to wait or has left. -/
def run (E : Engine σ) : Nat → Runner σ → Shared → Runner σ × Shared
  | 0, r, s => (r, s)
  | fuel + 1, r, s =>
    if r.canStep s.coordinator then
      let (r, s) := r.turn E s
      run E fuel r s
    else r.turn E s

end Runner

end ClauseExchange
