import ClauseExchange.Config
import ClauseExchange.PhaseTimes

/-!
# Statistics

Counters of one engine and of one worker, and what a worker tells the host while it runs.
-/

namespace ClauseExchange

/-- The counters of an engine's search. -/
structure EngineStatistics where
  conflicts : Nat := 0
  decisions : Nat := 0
  propagations : Nat := 0
  restarts : Nat := 0
  redundantClauses : Nat := 0
  deriving DecidableEq, Repr, Inhabited

/-- The counters of a worker. -/
structure WorkerStatistics where
  /-- The number of the worker. -/
  worker : Nat := 0
  /-- What its engine concluded. -/
  verdict : Verdict := .unknown
  /-- The completed periods. -/
  periods : Nat := 0
  /-- The length of the period in which it stopped. -/
  periodLength : Nat := 0
  /-- The clauses moved into its own mailbox. -/
  exportedClauses : Nat := 0
  /-- The literals moved into its own mailbox. -/
  exportedLiterals : Nat := 0
  /-- The clauses dropped because they exceed the export budget. -/
  oversizedClauses : Nat := 0
  /-- The clauses received from other workers. -/
  importedClauses : Nat := 0
  /-- How often its engine was made to apply imported clauses. -/
  forcedApplications : Nat := 0
  /-- The quality up to which its engine exported clauses in the end. -/
  exportThreshold : Nat := 0
  /-- The counters of its engine. -/
  engine : EngineStatistics := {}
  /-- How it spent its time. -/
  times : PhaseTimes := {}
  deriving DecidableEq, Repr, Inhabited

namespace WorkerStatistics

/-- The share of time spent waiting for other workers. -/
def waitingRatio (s : WorkerStatistics) : Float :=
  let total := s.times.total.toSeconds
  if total == 0.0 then 0.0 else s.times.waiting.toSeconds / total

/-- The conflicts in a second of the time not spent waiting. -/
def conflictRate (s : WorkerStatistics) : Float :=
  let seconds := s.times.nonWaiting.toSeconds
  if seconds == 0.0 then 0.0 else wordToFloat s.engine.conflicts / seconds

end WorkerStatistics

/-- The counters that a worker publishes at the end of every period. -/
structure Progress where
  period : Nat := 0
  periodLength : Nat := 0
  conflicts : Nat := 0
  propagations : Nat := 0
  imported : Nat := 0
  exported : Nat := 0
  deriving DecidableEq, Repr, Inhabited

end ClauseExchange
