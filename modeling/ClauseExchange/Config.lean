import ClauseExchange.Word
import ClauseExchange.Limits

/-!
# Configurations

How an exchange is run: its workers, the lag and the length of periods, when imported clauses are
forced upon an engine, how much is exported, and the resource limits. `Config.validate` refuses
values that no exchange can run with; `affordableWorkers` fits the number of workers to a memory
limit.
-/

namespace ClauseExchange

/-- The configuration of an exchange. -/
structure Config where
  /-- The number of workers. -/
  numWorkers : Nat := 1
  /-- The lag of imports, and the grace window of the winner, in periods. -/
  margin : Nat := 20
  /-- The length of a period in units of work. -/
  periodLength : Nat := 1000000
  /-- Whether a worker skips sets that are still open instead of waiting for them. -/
  nonDeterministic : Bool := false
  /-- The pending clauses a worker that force an application; `0` forces none. -/
  forcedClauses : Nat := 10000
  /-- The least number of periods between two forced applications. -/
  forcedPeriods : Nat := 50
  /-- The conflicts that a period of adaptive length aims at; `0` keeps the length fixed. -/
  adaptiveConflicts : Nat := 0
  /-- The smallest adaptive length; `0` is no bound. -/
  adaptiveLower : Nat := 0
  /-- The largest adaptive length; `0` is no bound. -/
  adaptiveUpper : Nat := 0
  /-- The weight of the newest measurement in the moving average of the length. -/
  adaptiveSmoothing : Float := 0.1
  /-- The literals exported in a period; `0` is no limit. -/
  exportBudget : Nat := 150
  /-- The backlog of staged literals to aim at, as a multiple of the budget. -/
  exportMargin : Float := 3.0
  /-- The resource limits. -/
  limits : Limits := {}

namespace Config

instance : Inhabited Config := ⟨{}⟩

/-- Sets the number of workers, at least one. -/
def withWorkers (c : Config) (numWorkers : Nat) : Config :=
  { c with numWorkers := max numWorkers 1 }

/-- Whether the length of periods follows the conflicts. -/
def isAdaptive (c : Config) : Bool := 0 < c.adaptiveConflicts

/-- Why a value is out of range. -/
inductive Defect
  | periodLengthZero
  | smoothing (value : Float)
  | exportMargin (value : Float)
  | boundsInverted (lower upper : Nat)
  | engineCount (engines workers : Nat)

/-- The wording of a defect. -/
def Defect.message : Defect → String
  | periodLengthZero => "period length must be positive"
  | smoothing value => "adaptive smoothing must be in (0, 1], got " ++ Decimal.shortest value
  | exportMargin value =>
    "export literal margin must be non-negative, got " ++ Decimal.shortest value
  | boundsInverted lower upper => s!"adaptive period bounds are inverted: {lower} > {upper}"
  | engineCount engines workers => s!"{engines} engines for {workers} workers"

/-- The setup error for a defect. -/
def Defect.error (d : Defect) : SetupError := .invalidConfiguration d.message

/-- Refuses values that are out of range. -/
def validate (c : Config) : Except SetupError Unit :=
  if c.numWorkers = 0 then .error .noWorkers
  else if c.periodLength = 0 then .error Defect.periodLengthZero.error
  else if !(0.0 < c.adaptiveSmoothing && c.adaptiveSmoothing ≤ 1.0) then
    .error (Defect.smoothing c.adaptiveSmoothing).error
  else if c.exportMargin.isNaN || c.exportMargin < 0.0 then
    .error (Defect.exportMargin c.exportMargin).error
  else if 0 < c.adaptiveLower && 0 < c.adaptiveUpper && c.adaptiveUpper < c.adaptiveLower then
    .error (Defect.boundsInverted c.adaptiveLower c.adaptiveUpper).error
  else .ok ()

end Config

/-- The natural number nearest to a double from below; below zero it is zero and above the largest
64-bit word it is that word. -/
def wholePart (x : Float) : Nat := x.toUInt64.toNat

/-- A 64-bit word as the nearest double. -/
def wordToFloat (n : Nat) : Float := n.toUInt64.toFloat

/-- The natural number nearest to a double, from halves upwards; below zero it is zero and above the
largest 64-bit word it is that word. -/
def nearestWhole (x : Float) : Nat :=
  let n := wholePart x
  if 0.5 ≤ x - wordToFloat n then min (n + 1) (Word.bound - 1) else n

/-- The number of workers, at most `requested`, whose memory fits the limit if each needs `factor`
times the memory in use. Nothing is adjusted without a limit or a factor, or for a small input. -/
def affordableWorkers (requested : Nat) (limit used : Float) (factor : Nat) : Nat :=
  if factor = 0 || limit ≤ 0.0 || used < 250.0 then requested
  else
    let affordable := wholePart (limit / (used * wordToFloat factor))
    min (max affordable 1) (max requested 1)

end ClauseExchange
