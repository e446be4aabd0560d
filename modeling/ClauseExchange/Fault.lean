import ClauseExchange.Verdict

/-!
# What can go wrong

Two kinds of failure are kept apart. A `SetupError` is reported to whoever starts an exchange:
a value out of range, or memory that cannot be reserved. A `Fault` is a broken rule inside a
running worker, such as appending to a completed clause set; it ends that worker.

`Fault.message?` and `SetupError.message` hold every wording.
-/

namespace ClauseExchange

/-- A broken rule, which ends the worker that broke it. -/
inductive Fault
  /-- A result does not fit its machine word. -/
  | overflow
  /-- A worker, mailbox or literal that does not exist was named. -/
  | indexOutOfBounds
  /-- A clause would hold the terminator `0` as a literal. -/
  | zeroLiteral
  /-- A clause was appended to a set that is already complete. -/
  | appendToCompleted (producer period : Nat)
  /-- A complete set was completed again. -/
  | completedTwice (producer period : Nat)
  /-- A producer acknowledged a set of its own. -/
  | ownSetConsumed (producer : Nat)
  /-- A mailbox was advanced after it was closed. -/
  | advanceAfterClose (owner : Nat)
  /-- An owner fetched from its own mailbox as if it were a consumer. -/
  | fetchFromSelf (owner : Nat)
  /-- A consumer acknowledged another set than the next one it has to read. -/
  | acknowledgedOutOfOrder (consumer period owner : Nat)
  /-- More workers stopped than were started. -/
  | stopWithoutStart
  /-- A conclusive verdict contradicts the recorded one. -/
  | conflictingVerdicts (recorded reported : Verdict)
  /-- A worker was made for a place the exchange does not have. -/
  | workerOutOfRange (worker workers : Nat)
  /-- A random value was drawn from a range without values. -/
  | emptyRange
  /-- A random choice was made with something that is no probability. -/
  | notAProbability
  /-- The engine gave up on its own, with a message. -/
  | engine (message : String)
  deriving DecidableEq, Repr

namespace Fault

/-- The wording of a fault, for those that have one. -/
def message? : Fault → Option String
  | overflow => none
  | indexOutOfBounds => none
  | zeroLiteral => some "literal 0 is reserved as the DIMACS terminator"
  | appendToCompleted producer period =>
    some s!"append to completed clause set (producer {producer}, period {period})"
  | completedTwice producer period =>
    some s!"clause set completed twice (producer {producer}, period {period})"
  | ownSetConsumed producer => some s!"producer {producer} cannot consume its own clause set"
  | advanceAfterClose owner => some s!"producer {owner} advanced a closed mailbox"
  | fetchFromSelf owner => some s!"worker {owner} must use fetch_own on its own mailbox"
  | acknowledgedOutOfOrder consumer period owner =>
    some s!"worker {consumer} acknowledged period {period} of producer {owner} out of order"
  | stopWithoutStart => some "register_stop without register_start"
  | conflictingVerdicts recorded reported =>
    some ("conflicting verdicts " ++ recorded.text ++ " and " ++ reported.text)
  | workerOutOfRange worker workers => some s!"worker {worker} out of range for {workers} workers"
  | emptyRange => some "cannot sample empty range"
  | notAProbability => some "p=NaN is outside range [0.0, 1.0]"
  | engine message => some message

end Fault

/-- Why an exchange could not be set up, or did not end with an answer. -/
inductive SetupError
  /-- An exchange needs a worker. -/
  | noWorkers
  /-- Memory for `count` entries of a table could not be reserved. -/
  | allocation (what : String) (count : Nat)
  /-- A configured value is out of range. -/
  | invalidConfiguration (reason : String)
  /-- A worker ended with a fault before it handed in its statistics. -/
  | workerPanicked (worker : Nat)
  deriving DecidableEq, Repr

namespace SetupError

/-- The wording of a setup error. -/
def message : SetupError → String
  | noWorkers => "at least one worker is required"
  | allocation what count => s!"could not allocate memory for {what} ({count} entries)"
  | invalidConfiguration reason => "invalid configuration: " ++ reason
  | workerPanicked worker => s!"worker {worker} panicked"

end SetupError

/-- Why part of an exchange is not built, or a portfolio has no result. -/
inductive Failure
  /-- There is an error for whoever asked. -/
  | refused (error : SetupError)
  /-- A rule was broken outside the workers, by arithmetic on a request or on totals. -/
  | fault (fault : Fault)
  deriving DecidableEq, Repr

end ClauseExchange
