import ClauseExchange.Number.Binary

/-!
# Reading numbers

`Reading.float?` reads a decimal number as the nearest double. The text is an optional sign and
then `inf`, `infinity` or `nan` in any case, or digits with an optional point and an optional
exponent; there must be a digit before or after the point. `Reading.natural?` reads an unsigned
decimal number up to a limit, with an optional plus sign.
-/

namespace ClauseExchange.Reading

/-- The value of a string of decimal digits, in front of which `n` has been read. -/
def digitsValue (n : Nat) (ds : List Char) : Nat :=
  ds.foldl (fun n d => 10 * n + (d.toNat - '0'.toNat)) n

/-- An optional sign, and what follows it. -/
def splitSign : List Char → Bool × List Char
  | '-' :: rest => (true, rest)
  | '+' :: rest => (false, rest)
  | cs => (false, cs)

/-- The exponent at the end of a number: nothing, or `e` with an optional sign and digits. -/
def exponent? : List Char → Option Int
  | [] => some 0
  | c :: rest =>
    if c = 'e' ∨ c = 'E' then
      let (negative, ds) := splitSign rest
      if ds.isEmpty || !ds.all Char.isDigit then none
      else
        let e := digitsValue 0 ds
        some (if negative then -e else e)
    else none

/-- The double nearest to `n * 10 ^ e`. Exponents beyond the range of doubles are cut short. -/
def scaled (negative : Bool) (n : Nat) (e : Int) : Float :=
  if n = 0 then Binary.toFloat negative 0 1
  else
    let k := e + ((toString n).length : Int)
    if 400 < k then Binary.toFloat negative (Nat.pow 10 400) 1
    else if k < -400 then Binary.toFloat negative 1 (Nat.pow 10 400)
    else if 0 ≤ e then Binary.toFloat negative (n * Nat.pow 10 e.toNat) 1
    else Binary.toFloat negative n (Nat.pow 10 (-e).toNat)

/-- The double that an unsigned decimal number stands for. -/
def decimal? (negative : Bool) (cs : List Char) : Option Float :=
  let whole := cs.takeWhile Char.isDigit
  let rest := cs.dropWhile Char.isDigit
  let (fraction, rest) :=
    match rest with
    | '.' :: rest => (rest.takeWhile Char.isDigit, rest.dropWhile Char.isDigit)
    | _ => ([], rest)
  if whole.isEmpty && fraction.isEmpty then none
  else
    (exponent? rest).map fun e =>
      scaled negative (digitsValue (digitsValue 0 whole) fraction) (e - fraction.length)

/-- The double that a text stands for. -/
def float? (text : String) : Option Float :=
  let (negative, cs) := splitSign text.toList
  let word := String.ofList (cs.map Char.toLower)
  if word = "inf" ∨ word = "infinity" then
    some (Binary.withSign negative (2047 * Nat.pow 2 Binary.fractionBits))
  else if word = "nan" then some (0.0 / 0.0)
  else decimal? negative cs

/-- The natural number below `bound` that a text stands for. -/
def natural? (bound : Nat) (text : String) : Option Nat :=
  let ds :=
    match text.toList with
    | '+' :: rest => rest
    | cs => cs
  if ds.isEmpty || !ds.all Char.isDigit then none
  else
    let n := digitsValue 0 ds
    if n < bound then some n else none

end ClauseExchange.Reading
