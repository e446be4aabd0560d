import ClauseExchange.Number.Decimal

/-!
# Durations

A duration is a number of nanoseconds. It is written in the largest of the units second,
millisecond, microsecond and nanosecond that it reaches; the unit is chosen before the number is
rounded, so that a text such as `1000.00ms` is possible.
-/

namespace ClauseExchange

/-- A span of time. -/
structure Duration where
  /-- The length in nanoseconds. -/
  nanos : Nat := 0
  deriving DecidableEq, Repr, Inhabited

namespace Duration

/-- Nanoseconds in a second. -/
def perSecond : Nat := 1000000000

/-- The largest number of seconds is below this bound. -/
def secondsBound : Nat := 18446744073709551616

/-- A duration of whole seconds and further nanoseconds. -/
def ofParts (seconds nanos : Nat) : Duration := ⟨seconds * perSecond + nanos⟩

/-- The unit in which a duration is written: its name and its length in nanoseconds, a power of
ten whose exponent comes last. -/
def unit (d : Duration) : String × Nat × Nat :=
  if perSecond ≤ d.nanos then ("s", perSecond, 9)
  else if 1000000 ≤ d.nanos then ("ms", 1000000, 6)
  else if 1000 ≤ d.nanos then ("µs", 1000, 3)
  else ("ns", 1, 0)

/-- A duration with two places; a half goes to the even neighbour. -/
def text (d : Duration) : String :=
  let (name, length, _) := d.unit
  Decimal.placed 2 (Ratio.roundDiv (100 * d.nanos) length) ++ name

/-- A duration with all its places and no zeros at the end. -/
def exactText (d : Duration) : String :=
  let (name, _, places) := d.unit
  let (n, e) := Decimal.normalized places d.nanos (-places)
  Decimal.positional n e ++ name

/-- The duration in seconds, as a double. -/
def toSeconds (d : Duration) : Float :=
  (d.nanos / perSecond).toUInt64.toFloat + (d.nanos % perSecond).toUInt64.toFloat / 1000000000.0

/-- Why a number of seconds is no duration. -/
inductive Refusal
  | negative
  | tooLargeOrNotANumber
  deriving DecidableEq, Repr

/-- The wording of a refusal. -/
def Refusal.message : Refusal → String
  | negative => "cannot convert float seconds to Duration: value is negative"
  | tooLargeOrNotANumber =>
    "cannot convert float seconds to Duration: value is either too big or NaN"

/-- The duration of a number of seconds, rounded to nanoseconds with a half going to the even
neighbour. -/
def ofSeconds (x : Float) : Except Refusal Duration :=
  match Binary.ofFloat x with
  | .nan => .error .tooLargeOrNotANumber
  | .infinite negative => .error (if negative then .negative else .tooLargeOrNotANumber)
  | .finite negative m q =>
    if negative && m != 0 then .error .negative
    else
      let (num, den) := Decimal.ratio m q
      let nanos := Ratio.roundDiv (num * perSecond) den
      if nanos < secondsBound * perSecond then .ok ⟨nanos⟩ else .error .tooLargeOrNotANumber

end Duration

end ClauseExchange
