import ClauseExchange.Number.Ratio

/-!
# Binary floating-point numbers as exact numbers

A finite double is `m * 2 ^ q` for a natural number `m` below `2 ^ 53`, up to its sign.
`Binary.ofFloat` takes a double apart in this way, and `Binary.toFloat` finds the double that is
nearest to a ratio of natural numbers.
-/

namespace ClauseExchange

/-- A double, taken apart. -/
inductive Binary
  | nan
  | infinite (negative : Bool)
  /-- The number `m * 2 ^ q`, up to its sign. -/
  | finite (negative : Bool) (m : Nat) (q : Int)
  deriving DecidableEq, Repr

namespace Binary

/-- The number of bits below the leading bit of a normal double. -/
def fractionBits : Nat := 52

/-- The exponent `q` of the smallest doubles. -/
def minExponent : Int := -1074

/-- Takes a double apart. -/
def ofFloat (x : Float) : Binary :=
  let bits := x.toBits.toNat
  let negative := bits / Nat.pow 2 63 == 1
  let exponent := bits / Nat.pow 2 fractionBits % 2048
  let fraction := bits % Nat.pow 2 fractionBits
  if exponent = 2047 then
    if fraction = 0 then infinite negative else nan
  else if exponent = 0 then finite negative fraction minExponent
  else finite negative (Nat.pow 2 fractionBits + fraction) (exponent + minExponent - 1)

/-- The double with the given sign bit and the given bits below it. -/
def withSign (negative : Bool) (bits : Nat) : Float :=
  Float.ofBits (UInt64.ofNat (if negative then Nat.pow 2 63 + bits else bits))

/-- The exponent of the largest power of two that is not above `num / den`. -/
def log2 (num den : Nat) : Int :=
  let e : Int := (num.log2 : Int) - den.log2
  let below := if 0 ≤ e then den * Nat.pow 2 e.toNat ≤ num else den ≤ num * Nat.pow 2 (-e).toNat
  if below then e else e - 1

/-- The double nearest to `num / den`, for a positive `den`. A half goes to the even neighbour, and
what lies beyond the largest double becomes infinite. -/
def toFloat (negative : Bool) (num den : Nat) : Float :=
  if num = 0 then withSign negative 0
  else
    let q := max minExponent (log2 num den - fractionBits)
    let m :=
      if 0 ≤ q then Ratio.roundDiv num (den * Nat.pow 2 q.toNat)
      else Ratio.roundDiv (num * Nat.pow 2 (-q).toNat) den
    -- A carry into the leading bit moves on to the exponent by itself.
    let bits := (q - minExponent).toNat * Nat.pow 2 fractionBits + m
    withSign negative (min bits (2047 * Nat.pow 2 fractionBits))

end Binary

end ClauseExchange
