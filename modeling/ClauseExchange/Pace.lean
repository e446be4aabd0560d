import ClauseExchange.Config

/-!
# The length of periods, and the flow of exports

With an adaptive length, every worker estimates how much work a fixed number of conflicts takes: a
moving average, renewed whenever that many conflicts have passed since the last renewal. The
rounded average is the worker's candidate for a later period; `Pace.combine` is the length that
follows from the candidates of all workers.

`Flow` watches the backlog of staged literals and advises an engine to export more or less.
-/

namespace ClauseExchange

/-- A moving average of the work that a number of conflicts takes. -/
structure Pace where
  /-- The conflicts that a period aims at; `0` if the length is fixed. -/
  conflicts : Nat
  /-- The weight of a new measurement. -/
  smoothing : Float
  /-- The average. -/
  average : Float
  /-- The work since the last renewal. -/
  consumed : Nat := 0
  /-- The conflicts at the last renewal. -/
  conflictsAtRenewal : Nat := 0

namespace Pace

/-- The pace of a worker that has not started. -/
def start (c : Config) : Pace where
  conflicts := c.adaptiveConflicts
  smoothing := c.adaptiveSmoothing
  average := wordToFloat c.periodLength

instance : Inhabited Pace := ⟨start {}⟩

/-- The average after `conflicts` conflicts. -/
def renewed (p : Pace) (conflicts : Nat) : Float :=
  let needed := wordToFloat p.consumed / wordToFloat (conflicts - p.conflictsAtRenewal)
    * wordToFloat p.conflicts
  p.smoothing * needed + (1.0 - p.smoothing) * p.average

/-- The candidate that follows from the average, at least one unit of work. -/
def candidate (p : Pace) : Nat := max (nearestWhole p.average) 1

/-- Counts a period of the given length, after which the engine has had `conflicts` conflicts, and
answers the next candidate. -/
def update (p : Pace) (length conflicts : Nat) : Except Fault Nat × Pace :=
  if p.conflicts = 0 then (.ok length, p)
  else
    match Word.add p.consumed length with
    | .error f => (.error f, p)
    | .ok consumed =>
      let p := { p with consumed }
      match Word.add p.conflictsAtRenewal p.conflicts with
      | .error f => (.error f, p)
      | .ok due =>
        let p :=
          if due ≤ conflicts then
            { p with average := p.renewed conflicts, consumed := 0, conflictsAtRenewal := conflicts }
          else p
        (.ok p.candidate, p)

/-- The length within the bounds of a configuration, at least one unit of work. -/
def clamp (c : Config) (length : Nat) : Nat :=
  let length := if 0 < c.adaptiveLower then max length c.adaptiveLower else length
  let length := if 0 < c.adaptiveUpper then min length c.adaptiveUpper else length
  max length 1

/-- The length of the next period: the mean of the candidates within the bounds, or the present
length if there is no candidate. -/
def combine (c : Config) (present sum candidates : Nat) : Nat :=
  if candidates = 0 then present else clamp c (sum / candidates)

end Pace

/-- What the flow control last saw. -/
structure Flow where
  /-- The engine's conflicts. -/
  conflicts : Nat := 0
  /-- The staged literals. -/
  backlog : Nat := 0
  deriving DecidableEq, Repr, Inhabited

/-- An advice to an engine. -/
inductive Advice
  | keep
  | relax
  | tighten
  deriving DecidableEq, Repr

namespace Flow

/-- The advice for a backlog, and the flow from then on. Without a budget, or without new
conflicts, nothing changes. A backlog below the target that does not grow calls for more exports,
one above the target that grows calls for fewer. -/
def advise (f : Flow) (c : Config) (conflicts backlog : Nat) : Advice × Flow :=
  if c.exportBudget = 0 ∨ conflicts = f.conflicts then (.keep, f)
  else
    let growing := f.backlog < backlog
    let target := wordToFloat c.exportBudget * c.exportMargin
    let advice :=
      if wordToFloat backlog < target && !growing then .relax
      else if target < wordToFloat backlog && growing then .tighten
      else .keep
    (advice, { conflicts, backlog })

end Flow

end ClauseExchange
