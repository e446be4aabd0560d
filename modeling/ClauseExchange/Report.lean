import ClauseExchange.Word

/-!
# Reports and the winner among them

Every worker reports its verdict once, signed with the period in which it stopped and with its
own number. Reports are ranked by signature, smaller period first and smaller number among equal
periods, so that the winner does not depend on which report arrives first.

`Report.displaces` is the rule by which a report becomes the winner, and `Report.endsPeriod` is
the rule by which the winner ends the search of a worker that has come too far.
-/

namespace ClauseExchange

/-- Who reported, and when. -/
structure Signature where
  /-- The period in which the worker stopped. -/
  period : Nat
  /-- The number of the worker. -/
  worker : Nat
  deriving DecidableEq, Repr, Inhabited

namespace Signature

/-- A signature is better if its period is smaller, or its worker in the same period. -/
def Better (a b : Signature) : Prop :=
  a.period < b.period ∨ a.period = b.period ∧ a.worker < b.worker

instance (a b : Signature) : Decidable (a.Better b) :=
  inferInstanceAs (Decidable (_ ∨ _ ∧ _))

instance : LT Signature := ⟨Better⟩

instance (a b : Signature) : Decidable (a < b) := inferInstanceAs (Decidable (a.Better b))

instance : Ord Signature :=
  ⟨fun a b => if a < b then .lt else if b < a then .gt else .eq⟩

/-- The better of two signatures, the first of two equal ones. -/
def best (a b : Signature) : Signature := if b < a then b else a

/-- The signatures from the best to the worst. -/
def sort (ss : List Signature) : List Signature := ss.mergeSort fun a b => !decide (b < a)

/-- The wording of a signature. -/
def text (s : Signature) : String := s!"worker {s.worker} at period {s.period}"

end Signature

/-- A signed verdict. -/
structure Report where
  /-- What the worker concluded. -/
  verdict : Verdict
  /-- Who reports, and when. -/
  signature : Signature
  deriving DecidableEq, Repr, Inhabited

namespace Report

/-- Whether a report becomes the winner. The first report always does; a later one must be
conclusive and have a better signature than the winner, and it must not contradict the winner. -/
def displaces (r : Report) : Option Report → Except Fault Bool
  | none => .ok true
  | some winner =>
    if winner.verdict.contradicts r.verdict then
      .error (.conflictingVerdicts winner.verdict r.verdict)
    else .ok (r.verdict.isConclusive && decide (r.signature < winner.signature))

/-- Whether a worker that enters `period` has to stop because of the winner: at once if the winner
is inconclusive, else after the grace window of `margin` periods. -/
def endsPeriod (winner : Report) (margin period : Nat) : Bool :=
  !winner.verdict.isConclusive || decide (Word.satAdd winner.signature.period margin < period)

end Report

end ClauseExchange
