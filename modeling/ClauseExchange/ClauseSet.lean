import ClauseExchange.Clause

/-!
# Period clause sets

The clauses that one worker produces during one period. A set is open while its producer appends
to it. Completing it freezes its clauses and records the producer's candidate for the length of a
later period; from then on every consumer may read it, and acknowledges when it has.
-/

namespace ClauseExchange

/-- The clauses of one producer and one period. -/
structure ClauseSet where
  /-- The worker whose clauses these are. -/
  producer : Nat
  /-- The period in which they were produced. -/
  period : Nat
  /-- The clauses appended so far. -/
  appended : Array Clause := #[]
  /-- The candidate recorded at completion; none while the set is open. -/
  nextLength? : Option Nat := none
  /-- The number of acknowledgments. -/
  consumed : Nat := 0
  deriving DecidableEq, Repr

namespace ClauseSet

/-- A set that is open and empty. -/
def opened (producer period : Nat) : ClauseSet where
  producer := producer
  period := period

instance : Inhabited ClauseSet := ⟨opened 0 0⟩

/-- Whether the producer has completed the set. -/
def isCompleted (s : ClauseSet) : Bool := s.nextLength?.isSome

/-- The frozen clauses; none while the set is open. -/
def clauses? (s : ClauseSet) : Option (List Clause) :=
  if s.isCompleted then some s.appended.toList else none

/-- The number of clauses appended so far. -/
def numClauses (s : ClauseSet) : Nat := s.appended.size

/-- The number of literals in the clauses appended so far. -/
def numLiterals (s : ClauseSet) : Nat := s.appended.foldl (fun n c => n + c.length) 0

/-- The set with one more clause. -/
def push (s : ClauseSet) (c : Clause) : ClauseSet := { s with appended := s.appended.push c }

/-- Appends a clause to an open set. -/
def append (s : ClauseSet) (c : Clause) : Except Fault ClauseSet :=
  if s.isCompleted then .error (.appendToCompleted s.producer s.period) else .ok (s.push c)

/-- Freezes an open set and records the candidate `nextLength`. -/
def complete (s : ClauseSet) (nextLength : Nat) : Except Fault ClauseSet :=
  if s.isCompleted then .error (.completedTwice s.producer s.period)
  else .ok { s with nextLength? := some nextLength }

/-- The set with one more acknowledgment. -/
def countReader (s : ClauseSet) : ClauseSet := { s with consumed := s.consumed + 1 }

/-- Counts that `consumer`, who is not the producer, has read the set. -/
def acknowledge (s : ClauseSet) (consumer : Nat) : Except Fault ClauseSet :=
  if consumer = s.producer then .error (.ownSetConsumed s.producer) else .ok s.countReader

end ClauseSet

end ClauseExchange
