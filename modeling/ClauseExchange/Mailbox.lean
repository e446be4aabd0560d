import ClauseExchange.ClauseSet

/-!
# Mailboxes

Every worker owns a mailbox, the log of the clause sets that it produced: one set a period, all
complete but the last, which is the `tail`. The owner appends to the tail and advances to the next
period; every other worker reads the sets in order through a cursor of its own and acknowledges
each.

A set leaves the mailbox once all consumers have acknowledged it and it has fallen out of the
owner's window: `released` counts the sets that have left. `Mailbox.lookup` finds retained sets
only, whereas `Mailbox.set?` also finds a set that has left, which its last reader may still hold.
-/

namespace ClauseExchange

/-- The log of one producer's clause sets. -/
structure Mailbox where
  /-- The worker that produces the sets. -/
  owner : Nat
  /-- The number of workers in the exchange. -/
  numWorkers : Nat
  /-- How many periods behind the newest complete set the owner still looks up its own sets. -/
  window : Nat
  /-- The sets of all earlier periods, from period `0` on. -/
  past : Array ClauseSet := #[]
  /-- The newest set. -/
  tail : ClauseSet
  /-- The number of oldest sets that have left the mailbox. -/
  released : Nat := 0
  /-- The next unread period of every worker. -/
  cursors : Array Nat
  deriving DecidableEq, Repr

namespace Mailbox

instance : Inhabited Mailbox := ⟨⟨0, 0, 0, #[], default, 0, #[]⟩⟩

/-- The largest size of a table in bytes. -/
def maxTableBytes : Nat := 9223372036854775807

/-- The size of one table entry in bytes. -/
def entryBytes : Nat := 8

/-- Reserves a table of `count` entries, if its size can be addressed. -/
def reserve (what : String) (count bytes : Nat) : Except Failure Unit :=
  if count * bytes ≤ maxTableBytes then .ok ()
  else .error (.refused (.allocation what count))

/-- A mailbox with one open set, for period `0`. -/
def create (owner numWorkers window : Nat) : Except Failure Mailbox := do
  reserve "mailbox cursors" numWorkers entryBytes
  let initial ← (Word.add window 2).mapError .fault
  reserve "period clause sets" initial entryBytes
  return {
    owner, numWorkers, window
    tail := .opened owner 0
    cursors := Array.replicate numWorkers 0 }

/-- The set of a period, retained or not. -/
def set? (m : Mailbox) (period : Nat) : Option ClauseSet :=
  if period = m.past.size then some m.tail else m.past[period]?

/-- Replaces the set of a period. -/
def modifySet (m : Mailbox) (period : Nat) (f : ClauseSet → ClauseSet) : Mailbox :=
  if period = m.past.size then { m with tail := f m.tail }
  else { m with past := m.past.modify period f }

/-- The retained set of a period. -/
def lookup (m : Mailbox) (period : Nat) : Option ClauseSet :=
  if period < m.released then none else m.set? period

/-- The periods of the retained sets, oldest first. -/
def retained (m : Mailbox) : List Nat :=
  List.range' m.released (m.past.size + 1 - m.released)

/-- Whether the owner has stopped producing. -/
def isClosed (m : Mailbox) : Bool := m.tail.isCompleted

/-- Appends a clause to the tail, if that is open. -/
def append (m : Mailbox) (c : Clause) : Except Fault Unit × Mailbox :=
  if m.isClosed then (.error (.appendToCompleted m.tail.producer m.tail.period), m)
  else (.ok (), { m with tail := m.tail.push c })

/-- The period of the oldest set that stays when the sets from period `period` on may leave a mailbox
whose newest complete set is that of period `last`. A set that cannot be judged stays as well. -/
def firstKept (past : Array ClauseSet) (consumers window last period : Nat) :
    Nat × Except Fault Unit :=
  if h : period < past.size then
    let s := past[period]
    if s.consumed < consumers then (period, .ok ())
    else
      match Word.add s.period window with
      | .error f => (period, .error f)
      | .ok kept =>
        if last ≤ kept then (period, .ok ())
        else firstKept past consumers window last (period + 1)
  else (period, .ok ())
termination_by past.size - period

/-- Lets the sets leave that nobody needs any more, when period `last` has been completed. -/
def release (m : Mailbox) (last : Nat) : Except Fault Unit × Mailbox :=
  match Word.sub m.numWorkers 1 with
  | .error f => (.error f, m)
  | .ok consumers =>
    let (released, r) := firstKept m.past consumers m.window last m.released
    (r, { m with released })

/-- Completes the tail with the candidate `nextLength` and opens the set of the next period, whose
number is the answer. -/
def advance (m : Mailbox) (nextLength : Nat) : Except Fault Nat × Mailbox :=
  match m.tail.complete nextLength with
  | .error _ => (.error (.advanceAfterClose m.owner), m)
  | .ok full =>
    match Word.add full.period 1 with
    | .error f => (.error f, m)
    | .ok next =>
      let m := { m with past := m.past.push full, tail := .opened m.owner next }
      let (r, m) := m.release full.period
      (r.map fun _ => next, m)

/-- Completes the tail without opening another set. Closing again changes nothing. -/
def close (m : Mailbox) (nextLength : Nat) : Mailbox :=
  match m.tail.complete nextLength with
  | .error _ => m
  | .ok tail => { m with tail }

/-- The next unread period of a worker. -/
def cursor (m : Mailbox) (consumer : Nat) : Except Fault Nat :=
  match m.cursors[consumer]? with
  | none => .error .indexOutOfBounds
  | some next => .ok next

/-- The next unread set of a consumer, unless it is newer than `period`. The set may be open.
There is none if the consumer has read past `period`, or if the producer has not come that far. -/
def fetch (m : Mailbox) (consumer period : Nat) : Except Fault (Option ClauseSet) :=
  if consumer = m.owner then .error (.fetchFromSelf m.owner)
  else
    (m.cursor consumer).map fun next => if period < next then none else m.lookup next

/-- Moves a consumer's cursor past the set of `producer` and `period`, which must be the next one that
it has to read here, and counts the acknowledgment in the set. The set is handed in: it may come
from another mailbox, and is then counted there. The cursor has been moved before a producer is
told that it cannot consume its own set. -/
def acknowledgeSet (m : Mailbox) (consumer producer period : Nat) : Except Fault Unit × Mailbox :=
  match m.cursor consumer with
  | .error f => (.error f, m)
  | .ok next =>
    if next ≠ period then (.error (.acknowledgedOutOfOrder consumer period m.owner), m)
    else
      match Word.add next 1 with
      | .error f => (.error f, m)
      | .ok next =>
        let m := { m with cursors := m.cursors.set! consumer next }
        if consumer = producer then (.error (.ownSetConsumed producer), m)
        else if producer = m.owner then (.ok (), m.modifySet period ClauseSet.countReader)
        else (.ok (), m)

/-- Acknowledges a set of this mailbox for a consumer. -/
def acknowledge (m : Mailbox) (consumer period : Nat) : Except Fault Unit × Mailbox :=
  m.acknowledgeSet consumer m.owner period

/-- Reads and acknowledges complete sets in order, from the cursor of a consumer up to `period`,
and up to `fuel` of them. -/
def readThrough (consumer period : Nat) :
    Nat → Mailbox → Except Fault (List ClauseSet) × Mailbox
  | 0, m => (.ok [], m)
  | fuel + 1, m =>
    match m.fetch consumer period with
    | .error f => (.error f, m)
    | .ok none => (.ok [], m)
    | .ok (some set) =>
      if set.isCompleted then
        match m.acknowledge consumer set.period with
        | (.error f, m) => (.error f, m)
        | (.ok (), m) =>
          let (rest, m) := readThrough consumer period fuel m
          (rest.map (set :: ·), m)
      else (.ok [], m)

/-- Reads and acknowledges all complete sets from the cursor of a consumer up to `period`. -/
def read (m : Mailbox) (consumer period : Nat) : Except Fault (List ClauseSet) × Mailbox :=
  readThrough consumer period (m.past.size + 1) m

end Mailbox

end ClauseExchange
