import ClauseExchange.Channel
import ClauseExchange.Worker

/-!
# The end of a period

When the work of a period is used up, a worker

1. moves staged clauses into the open set of its mailbox, and advises its engine to export more or
   less,
2. completes that set with its candidate for a later period length, and opens the next,
3. imports from every other worker, in cyclic order, the sets up to the period that lies `margin`
   behind its own,
4. enters the next period, and
5. asks the coordinator and the resource limits whether to stop.

The boundary is a machine of its own. Each `Boundary.step` makes at most one call on what the
workers share, so that the steps of several workers can be interleaved in any order. The only
place where a worker may have to wait is another worker's open set: `Boundary.isWaiting` says when
it does, and then a step changes nothing. `Post.checkPeriod` takes all steps of one boundary
without a pause.
-/

namespace ClauseExchange

/-- What the workers of an exchange, and its host, share. -/
structure Shared where
  /-- The mailboxes and the winner. -/
  coordinator : Coordinator
  /-- The channel to the host. -/
  channel : Channel
  /-- The measurements: time and memory in use, and the stopwatches of the workers. -/
  sensors : Sensors := {}
  deriving Inhabited

/-- What a worker has imported at one boundary so far. -/
structure Tally where
  /-- The imported clauses. -/
  imported : Nat := 0
  /-- The sum of the candidates for the next length. -/
  lengthSum : Nat := 0
  /-- The number of these candidates. -/
  candidates : Nat := 0
  deriving DecidableEq, Repr, Inhabited

/-- Where a worker stands in a boundary. -/
inductive Stage
  /-- Moving staged clauses into the open set, with the counts so far. -/
  | exporting (drain : Drain)
  /-- About to complete the open set. -/
  | advancing
  /-- About to fetch the next set of the worker `offset` places further on. -/
  | fetching (offset : Nat) (tally : Tally)
  /-- Holding the fetched set of a period, which may still be open. -/
  | reading (offset : Nat) (tally : Tally) (period : Nat)
  /-- About to acknowledge the set of a period, which has been read. -/
  | acknowledging (offset : Nat) (tally : Tally) (period : Nat)
  /-- All imports are done; about to look up the worker's own candidate. -/
  | averaging (tally : Tally)
  /-- About to enter the next period, which has the given length. -/
  | entering (length : Nat)
  /-- In the next period; about to ask whether to stop. -/
  | deciding
  /-- The boundary is over; the answer is whether to go on. -/
  | answered (goOn : Bool)
  deriving DecidableEq, Repr

/-- A boundary in progress. -/
structure Boundary where
  /-- The engine's counters at its beginning. -/
  counters : EngineStatistics
  /-- Where the worker stands. -/
  stage : Stage
  deriving DecidableEq, Repr

/-- A worker and its engine. -/
structure Post (σ : Type) where
  worker : Worker
  engine : σ

/-- The outcome of one step of a boundary. -/
inductive Progression (σ : Type)
  /-- The step was taken, or the worker waits and nothing has changed. -/
  | moved (stage : Stage) (post : Post σ) (shared : Shared)
  /-- The step broke a rule. -/
  | failed (fault : Fault) (post : Post σ) (shared : Shared)

namespace Worker

/-- The period whose sets are imported at the end of the present one. -/
def importPeriod (w : Worker) (margin : Nat) : Nat := w.period - margin

/-- The worker `offset` places further on. -/
def neighbour (w : Worker) (offset : Nat) : Nat := (w.id + offset) % w.numWorkers

/-- Adds the counts of a finished drain to the counters. -/
def countExports (w : Worker) (d : Drain) : Worker :=
  let stats := { w.stats with
    exportedClauses := w.stats.exportedClauses + d.clauses
    exportedLiterals := w.stats.exportedLiterals + d.literals
    oversizedClauses := w.stats.oversizedClauses + d.oversized }
  { w with stats }

/-- Adds the imported clauses to the counters. -/
def countImports (w : Worker) (t : Tally) : Worker :=
  let stats := { w.stats with importedClauses := w.stats.importedClauses + t.imported }
  { w with stats }

/-- Enters the next period, which has the given length; work beyond the present one remains. -/
def enter (w : Worker) (length : Nat) : Except Fault Worker :=
  match Word.add w.period 1 with
  | .error f => .error f
  | .ok period =>
    let stats := { w.stats with periods := w.stats.periods + 1 }
    .ok { w with work := w.work - w.periodLength, period, periodLength := length, stats }

end Worker

namespace Tally

/-- Counts a set that has been read, whose candidate counts if the set is of the period
`target`. -/
def add (t : Tally) (s : ClauseSet) (target : Nat) : Except Fault Tally :=
  let t := { t with imported := t.imported + s.numClauses }
  match s.nextLength? with
  | none => .ok t
  | some length =>
    if s.period = target then
      (Word.add t.lengthSum length).map fun lengthSum =>
        { t with lengthSum, candidates := t.candidates + 1 }
    else .ok t

end Tally

/-- What a worker spends its time on in a stage, unless it waits. -/
def Stage.phase : Stage → Phase
  | .exporting _ | .fetching .. | .reading .. | .acknowledging .. | .averaging _ => .exchanging
  | .advancing | .entering _ | .deciding => .periodUpdate
  | .answered _ => .running

/-- The time that a worker has spent in every phase. -/
def Shared.times (s : Shared) (worker : Nat) : PhaseTimes := s.sensors.times worker

variable {σ : Type}

namespace Post

/-- Passes an advice on to the engine. -/
def follow (E : Engine σ) (p : Post σ) (advice : Advice) : Except Fault Unit × Post σ :=
  match advice with
  | .keep => (.ok (), p)
  | .relax => let (r, engine) := E.relax p.engine; (r, { p with engine })
  | .tighten => let (r, engine) := E.tighten p.engine; (r, { p with engine })

/-- Counts the exports of a boundary and advises the engine about its backlog. -/
def regulate (E : Engine σ) (p : Post σ) (conflicts : Nat) (d : Drain) :
    Except Fault Unit × Post σ :=
  let worker := p.worker.countExports d
  let (advice, flow) := worker.flow.advise worker.config conflicts worker.outbox.numLiterals
  { p with worker := { worker with flow } }.follow E advice

/-- The boundary at which a worker arrives when its engine asks for a check: none to be gone
through if the worker was stopped or has work left in its period. -/
def arrive (E : Engine σ) (p : Post σ) : Except Fault Boundary :=
  if p.worker.stopped then .ok ⟨{}, .answered false⟩
  else if p.worker.atBoundary then (E.statistics p.engine).map fun counters => ⟨counters, .exporting {}⟩
  else .ok ⟨{}, .answered true⟩

end Post

namespace Boundary

/-- Decides about the next staged clause. -/
def stepExporting (E : Engine σ) (b : Boundary) (d : Drain) (p : Post σ) (s : Shared) :
    Progression σ :=
  let w := p.worker
  match w.outbox.pick w.config.exportBudget d.literals with
  | .over outbox =>
    let p := { p with worker := { w with outbox } }
    match p.regulate E b.counters.conflicts d with
    | (.ok (), p) => .moved .advancing p s
    | (.error f, p) => .failed f p s
  | .oversized outbox => .moved (.exporting d.drop) { p with worker := { w with outbox } } s
  | .publish c outbox =>
    match s.coordinator.append w.id c with
    | (.ok (), coordinator) =>
      .moved (.exporting (d.move c)) { p with worker := { w with outbox := outbox.discount c } }
        { s with coordinator }
    | (.error f, coordinator) =>
      .failed f { p with worker := { w with outbox } } { s with coordinator }

/-- Completes the open set with the worker's candidate. -/
def stepAdvancing (b : Boundary) (p : Post σ) (s : Shared) : Progression σ :=
  let w := p.worker
  match w.pace.update w.periodLength b.counters.conflicts with
  | (.error f, pace) => .failed f { p with worker := { w with pace } } s
  | (.ok candidate, pace) =>
    let p := { p with worker := { w with pace } }
    match s.coordinator.advance w.id candidate with
    | (.error f, coordinator) => .failed f p { s with coordinator }
    | (.ok _, coordinator) =>
      let stage :=
        if w.period < coordinator.margin then .entering w.periodLength else .fetching 1 {}
      .moved stage p { s with coordinator }

/-- Fetches the next set of one producer, or goes on to the next producer. -/
def stepFetching (offset : Nat) (t : Tally) (p : Post σ) (s : Shared) : Progression σ :=
  let w := p.worker
  if offset < w.numWorkers then
    let target := w.importPeriod s.coordinator.margin
    match s.coordinator.fetch (w.neighbour offset) w.id target with
    | .error f => .failed f p s
    | .ok none => .moved (.fetching (offset + 1) t) p s
    | .ok (some set) => .moved (.reading offset t set.period) p s
  else .moved (.averaging t) p s

/-- Reads a set that is complete. An open one is skipped in the mode that does not wait, and keeps
the worker where it is in the other. -/
def stepReading (offset : Nat) (t : Tally) (period : Nat) (p : Post σ) (s : Shared) :
    Progression σ :=
  let w := p.worker
  match s.coordinator.set? (w.neighbour offset) period with
  | none => .moved (.reading offset t period) p s
  | some set =>
    match set.clauses? with
    | none =>
      let stage : Stage :=
        if w.config.nonDeterministic then .fetching (offset + 1) t else .reading offset t period
      .moved stage p s
    | some clauses =>
      let w := { w with pending := w.pending.append clauses }
      match t.add set (w.importPeriod s.coordinator.margin) with
      | .error f => .failed f { p with worker := w } s
      | .ok t => .moved (.acknowledging offset t period) { p with worker := w } s

/-- Acknowledges a set that has been read. -/
def stepAcknowledging (offset : Nat) (t : Tally) (period : Nat) (p : Post σ) (s : Shared) :
    Progression σ :=
  let w := p.worker
  match s.coordinator.acknowledge (w.neighbour offset) w.id period with
  | (.error f, coordinator) => .failed f p { s with coordinator }
  | (.ok (), coordinator) => .moved (.fetching offset t) p { s with coordinator }

/-- Settles the length of the next period, for which an adaptive worker also looks up the candidate
in its own set. -/
def stepAveraging (t : Tally) (p : Post σ) (s : Shared) : Progression σ :=
  let w := p.worker.countImports t
  let p := { p with worker := w }
  if w.config.isAdaptive then
    let target := w.importPeriod s.coordinator.margin
    match s.coordinator.mailbox w.id with
    | .error f => .failed f p s
    | .ok m =>
      let own? := (m.lookup target).bind (·.nextLength?)
      match Word.add t.lengthSum (own?.getD 0) with
      | .error f => .failed f p s
      | .ok sum =>
        let candidates := t.candidates + own?.toList.length
        .moved (.entering (Pace.combine w.config w.periodLength sum candidates)) p s
  else .moved (.entering w.periodLength) p s

/-- Enters the next period and tells the host. -/
def stepEntering (b : Boundary) (length : Nat) (p : Post σ) (s : Shared) : Progression σ :=
  match p.worker.enter length with
  | .error f => .failed f p s
  | .ok w =>
    .moved .deciding { p with worker := w }
      { s with channel := s.channel.publish w.id (w.progress b.counters) }

/-- Asks the coordinator, and then the resource limits, whether to stop. -/
def stepDeciding (p : Post σ) (s : Shared) : Progression σ :=
  let w := p.worker
  let (stop, sensors) :=
    if s.coordinator.shouldTerminate w.period then (true, s.sensors)
    else
      let (breach?, sensors) := w.config.limits.check s.sensors
      (breach?.isSome, sensors)
  .moved (.answered !stop) { p with worker := { w with stopped := stop } } { s with sensors }

/-- One step of a boundary. -/
def step (E : Engine σ) (b : Boundary) (p : Post σ) (s : Shared) : Progression σ :=
  match b.stage with
  | .exporting d => b.stepExporting E d p s
  | .advancing => b.stepAdvancing p s
  | .fetching offset t => stepFetching offset t p s
  | .reading offset t period => stepReading offset t period p s
  | .acknowledging offset t period => stepAcknowledging offset t period p s
  | .averaging t => stepAveraging t p s
  | .entering length => b.stepEntering length p s
  | .deciding => stepDeciding p s
  | .answered goOn => .moved (.answered goOn) p s

/-- Whether a worker waits for an open set. -/
def isWaiting (b : Boundary) (w : Worker) (c : Coordinator) : Bool :=
  match b.stage with
  | .reading offset _ period =>
    !w.config.nonDeterministic && !(c.set? (w.neighbour offset) period).any (·.isCompleted)
  | _ => false

/-- A bound on the number of steps in a boundary: every staged clause is picked once, and from every
other worker at most one set a period is fetched, read and acknowledged. -/
def allowance (p : Post σ) : Nat :=
  p.worker.outbox.groups.size + (3 * p.worker.period + 4) * p.worker.numWorkers + 8

end Boundary

/-- The outcome of a boundary taken as a whole. -/
inductive CheckOutcome
  /-- The worker waits for an open set. -/
  | blocked
  /-- The boundary is over; the answer is whether to go on. -/
  | answered (goOn : Bool)
  /-- A step broke a rule. -/
  | failed (fault : Fault)
  deriving DecidableEq, Repr

namespace Boundary

/-- Takes up to `fuel` steps. -/
def run (E : Engine σ) : Nat → Boundary → Post σ → Shared → CheckOutcome × Post σ × Shared
  | 0, _, p, s => (.blocked, p, s)
  | fuel + 1, b, p, s =>
    match b.stage with
    | .answered goOn => (.answered goOn, p, s)
    | _ =>
      if b.isWaiting p.worker s.coordinator then (.blocked, p, s)
      else
        match b.step E p s with
        | .failed f p s => (.failed f, p, s)
        | .moved stage p s => run E fuel { b with stage } p s

end Boundary

namespace Post

/-- Ends the period if its work is used up, without a pause between the steps. -/
def checkPeriod (E : Engine σ) (p : Post σ) (s : Shared) : CheckOutcome × Post σ × Shared :=
  match p.arrive E with
  | .error f => (.failed f, p, s)
  | .ok b => b.run E (Boundary.allowance p) p s

/-- Takes the pending clauses and has the engine apply them, if there are any. -/
def applyImported (E : Engine σ) (p : Post σ) : Except Fault ApplyOutcome × Post σ :=
  let (batch, worker) := p.worker.takeImported
  if batch.isEmpty then (.ok .applied, { p with worker })
  else
    let (r, engine) := E.apply p.engine batch
    (r, { worker, engine })

/-- Whether a check would wait for a set that is open now: some other worker's open set is the next
one to read and not newer than the period to import. -/
def wouldWait (p : Post σ) (c : Coordinator) : Bool :=
  let w := p.worker
  !w.stopped && w.atBoundary && decide (c.margin ≤ w.period) && !w.config.nonDeterministic
    && c.mailboxes.any fun m =>
      m.owner != w.id && !m.tail.isCompleted
        && decide ((m.cursors[w.id]?).getD 0 ≤ m.tail.period)
        && decide (m.tail.period ≤ w.importPeriod c.margin)

end Post

end ClauseExchange
