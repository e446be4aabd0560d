import ClauseExchange.Mailbox
import ClauseExchange.Report
import ClauseExchange.Slots

/-!
# The coordinator

The state that all workers share: their mailboxes, the number of running workers and the winner
among the reports so far. The `margin` is the lag of the exchange in periods: a worker imports the
sets of the period that lies `margin` behind its own, and the winner's grace window is as long.
-/

namespace ClauseExchange

/-- What the workers of an exchange share. -/
structure Coordinator where
  /-- The lag of imports, and the grace window, in periods. -/
  margin : Nat
  /-- The length of the first periods in units of work. -/
  periodLength : Nat
  /-- One mailbox a worker. -/
  mailboxes : Array Mailbox
  /-- The number of running workers. -/
  live : Nat := 0
  /-- Whether any worker has been started yet. -/
  launched : Bool := false
  /-- The best report so far. -/
  winner? : Option Report := none
  deriving DecidableEq, Repr, Inhabited

namespace Coordinator

/-- The size of a mailbox in bytes, in the table of mailboxes. -/
def mailboxBytes : Nat := 88

/-- A coordinator with a fresh mailbox for every worker. -/
def create (numWorkers margin periodLength : Nat) : Except Failure Coordinator := do
  if numWorkers = 0 then
    throw (.refused .noWorkers)
  Mailbox.reserve "mailbox directory" numWorkers mailboxBytes
  let mailboxes ← (List.range numWorkers).mapM fun owner => Mailbox.create owner numWorkers margin
  return { margin, periodLength, mailboxes := mailboxes.toArray }

/-- The number of workers. -/
def numWorkers (c : Coordinator) : Nat := c.mailboxes.size

/-- The mailbox of a worker. -/
def mailbox (c : Coordinator) (worker : Nat) : Except Fault Mailbox :=
  match c.mailboxes[worker]? with
  | none => .error .indexOutOfBounds
  | some m => .ok m

/-- Runs an operation on the mailbox of a worker. -/
def onMailbox {α : Type} (c : Coordinator) (worker : Nat)
    (f : Mailbox → Except Fault α × Mailbox) : Except Fault α × Coordinator :=
  if h : worker < c.mailboxes.size then
    let (r, mailboxes) := Slots.visit c.mailboxes worker h f
    (r, { c with mailboxes })
  else (.error .indexOutOfBounds, c)

/-- Appends a clause to the open set of a worker. -/
def append (c : Coordinator) (worker : Nat) (clause : Clause) : Except Fault Unit × Coordinator :=
  c.onMailbox worker fun m => m.append clause

/-- Completes the open set of a worker and opens the next. -/
def advance (c : Coordinator) (worker nextLength : Nat) : Except Fault Nat × Coordinator :=
  c.onMailbox worker fun m => m.advance nextLength

/-- Closes the mailbox of a worker. -/
def close (c : Coordinator) (worker nextLength : Nat) : Except Fault Unit × Coordinator :=
  c.onMailbox worker fun m => (.ok (), m.close nextLength)

/-- The next set that `consumer` has to read from `producer`, unless it is newer than `period`. -/
def fetch (c : Coordinator) (producer consumer period : Nat) :
    Except Fault (Option ClauseSet) :=
  match c.mailbox producer with
  | .error f => .error f
  | .ok m => m.fetch consumer period

/-- The set of a producer and a period, retained or not. -/
def set? (c : Coordinator) (producer period : Nat) : Option ClauseSet :=
  c.mailboxes[producer]?.bind (·.set? period)

/-- Acknowledges a set of `producer` for `consumer`. -/
def acknowledge (c : Coordinator) (producer consumer period : Nat) :
    Except Fault Unit × Coordinator :=
  c.onMailbox producer fun m => m.acknowledge consumer period

/-- Counts a worker as running. -/
def start (c : Coordinator) : Except Fault Unit × Coordinator :=
  match Word.add c.live 1 with
  | .error f => (.error f, c)
  | .ok live => (.ok (), { c with live, launched := true })

/-- Counts a worker as stopped. -/
def stop (c : Coordinator) : Except Fault Unit × Coordinator :=
  if c.live = 0 then (.error .stopWithoutStart, c)
  else (.ok (), { c with live := c.live - 1 })

/-- The number of running workers; none before the first one was started. -/
def live? (c : Coordinator) : Option Nat := if c.launched then some c.live else none

/-- Takes a report, and answers whether it is the new winner. -/
def report (c : Coordinator) (r : Report) : Except Fault Bool × Coordinator :=
  match r.displaces c.winner? with
  | .error f => (.error f, c)
  | .ok false => (.ok false, c)
  | .ok true => (.ok true, { c with winner? := some r })

/-- Whether a worker that enters `period` has to stop. -/
def shouldTerminate (c : Coordinator) (period : Nat) : Bool :=
  match c.winner? with
  | none => false
  | some winner => winner.endsPeriod c.margin period

/-- The verdict of the winner, `unknown` if there is none. -/
def verdict (c : Coordinator) : Verdict :=
  match c.winner? with
  | none => .unknown
  | some winner => winner.verdict

end Coordinator

end ClauseExchange
