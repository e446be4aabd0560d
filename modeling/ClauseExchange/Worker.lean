import ClauseExchange.Coordinator
import ClauseExchange.Engine
import ClauseExchange.Outbox
import ClauseExchange.Pace

/-!
# Workers

A worker stands between an engine and the exchange. It keeps a logical clock of the engine's work,
stages the clauses that the engine offers, and holds the clauses that other workers sent until the
engine takes them. This module has what a worker does on its own; the end of a period, which
involves other workers, is in `ClauseExchange.Boundary`.
-/

namespace ClauseExchange

/-- The state of one worker. -/
structure Worker where
  /-- The number of the worker. -/
  id : Nat
  /-- The number of workers in the exchange. -/
  numWorkers : Nat
  /-- The configuration of the exchange. -/
  config : Config
  /-- The present period. -/
  period : Nat := 0
  /-- The length of the present period. -/
  periodLength : Nat
  /-- The work done in the present period. -/
  work : Nat := 0
  /-- Whether the engine has been told to stop. -/
  stopped : Bool := false
  /-- The clauses staged for export. -/
  outbox : Outbox := {}
  /-- The imported clauses that the engine has not taken. -/
  pending : Batch := {}
  /-- The period of the last forced application. -/
  lastForced : Nat := 0
  /-- The adaptive length of periods. -/
  pace : Pace
  /-- The flow of exports. -/
  flow : Flow := {}
  /-- The counters. -/
  stats : WorkerStatistics

namespace Worker

/-- A new worker for one of the places of a coordinator. -/
def create (id : Nat) (c : Coordinator) (config : Config) : Except Fault Worker :=
  if id < c.numWorkers then
    .ok {
      id, config
      numWorkers := c.numWorkers
      periodLength := c.periodLength
      pace := .start config
      stats := { worker := id } }
  else .error (.workerOutOfRange id c.numWorkers)

/-- Counts units of work; the clock stops at the largest word. -/
def addWork (w : Worker) (units : Nat) : Worker := { w with work := Word.satAdd w.work units }

/-- Whether the work of the period is used up. -/
def atBoundary (w : Worker) : Bool := w.periodLength ≤ w.work

/-- Stages a clause for export. A clause without literals is not exported. -/
def exportCandidate (w : Worker) (c : Clause) (quality : Nat) : Worker :=
  if c.isEmpty then w else { w with outbox := w.outbox.add c quality }

/-- Whether units or many clauses are pending. -/
def hasUrgentImports (w : Worker) : Bool :=
  !w.pending.units.isEmpty ||
    (0 < w.config.forcedClauses
      && w.config.forcedClauses ≤ w.pending.clauses.size / w.numWorkers)

/-- Whether the engine has to apply its imported clauses now: there are urgent ones, and the last
time is long enough ago. -/
def shouldApply (w : Worker) : Except Fault Bool × Worker :=
  match Word.add w.lastForced w.config.forcedPeriods with
  | .error f => (.error f, w)
  | .ok due =>
    if due ≤ w.period && w.hasUrgentImports then
      let stats := { w.stats with forcedApplications := w.stats.forcedApplications + 1 }
      (.ok true, { w with lastForced := w.period, stats })
    else (.ok false, w)

/-- Hands the pending clauses out. -/
def takeImported (w : Worker) : Batch × Worker := (w.pending, { w with pending := {} })

/-- The counters so far, without those of the engine, and the times that the worker's stopwatch
shows. -/
def statistics (w : Worker) (times : PhaseTimes) : WorkerStatistics :=
  { w.stats with periodLength := w.periodLength, times }

/-- What the engine can see. -/
def view (w : Worker) (times : PhaseTimes) : WorkerView where
  worker := w.id
  period := w.period
  periodLength := w.periodLength
  stopped := w.stopped
  atBoundary := w.atBoundary
  pending := w.pending
  statistics := w.statistics times

/-- What the worker publishes at the end of a period. -/
def progress (w : Worker) (counters : EngineStatistics) : Progress where
  period := w.period
  periodLength := w.periodLength
  conflicts := counters.conflicts
  propagations := counters.propagations
  imported := w.stats.importedClauses
  exported := w.stats.exportedClauses

end Worker

end ClauseExchange
