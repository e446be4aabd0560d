import ClauseExchange.Queue
import ClauseExchange.Statistics

/-!
# The channel to the host

Workers tell the host two things: their progress, of which only the latest is kept, and once that
they have finished. The host receives the notices in the order in which they were sent.
-/

namespace ClauseExchange

/-- The notice of a worker that has finished. -/
structure Notice where
  /-- The worker that sends the notice. -/
  worker : Nat
  /-- Its final statistics. -/
  statistics : WorkerStatistics
  deriving DecidableEq, Repr, Inhabited

/-- What the workers of an exchange have told the host. -/
structure Channel where
  /-- The latest progress of every worker. -/
  progress : Array Progress
  /-- The notices that the host has not received yet. -/
  notices : Queue Notice := {}
  deriving Repr, Inhabited

/-- Counters of all workers taken together. -/
structure Totals where
  conflicts : Nat
  imported : Nat
  exported : Nat
  deriving DecidableEq, Repr

namespace Channel

/-- A channel on which nothing has been told yet. -/
def create (numWorkers : Nat) : Channel where
  progress := Array.replicate numWorkers {}

/-- The latest progress of a worker. -/
def snapshot (c : Channel) (worker : Nat) : Except Fault Progress :=
  match c.progress[worker]? with
  | none => .error .indexOutOfBounds
  | some p => .ok p

/-- Replaces the progress of a worker. -/
def publish (c : Channel) (worker : Nat) (p : Progress) : Channel :=
  { c with progress := c.progress.setIfInBounds worker p }

/-- The totals of the latest progress, which the host logs. -/
def totals (c : Channel) : Except Fault Totals := do
  let total (counter : Progress → Nat) := Word.sum (c.progress.toList.map counter)
  return {
    conflicts := ← total (·.conflicts)
    imported := ← total (·.imported)
    exported := ← total (·.exported) }

/-- Sends a notice to the host. -/
def send (c : Channel) (n : Notice) : Channel := { c with notices := c.notices.push n }

/-- The oldest notice that the host has not received. -/
def receive (c : Channel) : Option (Notice × Channel) :=
  c.notices.pop?.map fun (n, notices) => (n, { c with notices })

end Channel

end ClauseExchange
