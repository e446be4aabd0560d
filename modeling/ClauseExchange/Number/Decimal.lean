import ClauseExchange.Number.Binary

/-!
# Decimal texts of doubles

Two ways to write a double. `Decimal.fixed` writes the exact value rounded to a number of places.
`Decimal.shortest` writes the fewest digits that still read back as the same double, and of those
the nearest ones; it never uses an exponent. `Decimal.detailed` differs from the shortest text in
that a whole number keeps `.0` and very large or small numbers get an exponent.
-/

namespace ClauseExchange.Decimal

/-- The digits of a natural number. -/
def digits (n : Nat) : String := toString n

/-- A digit string padded on the left with `0` to a width. -/
def zeroPadded (width n : Nat) : String :=
  let ds := digits n
  "".pushn '0' (width - ds.length) ++ ds

/-- The number `n / 10 ^ places` with all its places written out. -/
def placed (places n : Nat) : String :=
  if places = 0 then digits n
  else digits (n / Nat.pow 10 places) ++ "." ++ zeroPadded places (n % Nat.pow 10 places)

/-- The sign of a number in front of its digits. -/
def signed (negative : Bool) (text : String) : String := if negative then "-" ++ text else text

/-- The ratio that equals `m * 2 ^ q`. -/
def ratio (m : Nat) (q : Int) : Nat × Nat :=
  if 0 ≤ q then (m * Nat.pow 2 q.toNat, 1) else (m, Nat.pow 2 (-q).toNat)

/-- A double with a fixed number of places; a half goes to the even neighbour. -/
def fixed (places : Nat) (x : Float) : String :=
  match Binary.ofFloat x with
  | .nan => "NaN"
  | .infinite negative => signed negative "inf"
  | .finite negative m q =>
    let (num, den) := ratio m q
    signed negative (placed places (Ratio.roundDiv (num * Nat.pow 10 places) den))

/-- The least `k` from `start` on with `num < den * 10 ^ k`, among the next `tries`. -/
def magnitudeFrom (num den : Nat) (start : Int) : Nat → Int
  | 0 => start
  | tries + 1 =>
    let below :=
      if 0 ≤ start then num < den * Nat.pow 10 start.toNat else num * Nat.pow 10 (-start).toNat < den
    if below then start else magnitudeFrom num den (start + 1) tries

/-- The `k` with `10 ^ (k - 1) ≤ num / den < 10 ^ k`, for a positive ratio of the size of a
double. -/
def magnitude (num den : Nat) : Int :=
  magnitudeFrom num den (Binary.log2 num den * 30103 / 100000) 3

/-- The decimal `n * 10 ^ e` that rounds to the double `m * 2 ^ q` and is nearest to it, the larger
of two that are equally near, on the grid of the multiples of `10 ^ e`; none if no multiple rounds
to the double. -/
def onGrid? (m : Nat) (q e : Int) : Option (Nat × Int) :=
  -- All in quarters of the last binary place, over a common denominator.
  let (unit, den) := ratio 1 (q - 2)
  let (step, scale) :=
    if 0 ≤ e then (den * Nat.pow 10 e.toNat, unit) else (den, unit * Nat.pow 10 (-e).toNat)
  let value := 4 * m * scale
  let narrow := m == Nat.pow 2 Binary.fractionBits && decide (Binary.minExponent < q)
  let low := (if narrow then 4 * m - 1 else 4 * m - 2) * scale
  let high := (4 * m + 2) * scale
  let fits (point : Nat) : Bool :=
    if m % 2 = 0 then low ≤ point && point ≤ high else low < point && point < high
  let n := value / step
  let below := n * step
  let above := (n + 1) * step
  if fits below && fits above then
    if above - value ≤ value - below then some (n + 1, e) else some (n, e)
  else if fits below then some (n, e)
  else if fits above then some (n + 1, e)
  else none

/-- The shortest digits of the positive double `m * 2 ^ q`: a number `n` and an exponent `e` such
that `n * 10 ^ e` reads back as the double. -/
def shortestDigits (m : Nat) (q : Int) : Nat × Int :=
  let (num, den) := ratio m q
  let k := magnitude num den
  ((List.range' 1 17).findSome? fun (count : Nat) => onGrid? m q (k - count)).getD (num / den, 0)

/-- The number `n * 10 ^ e` without an exponent. -/
def positional (n : Nat) (e : Int) : String :=
  if 0 ≤ e then digits (n * Nat.pow 10 e.toNat) else placed (-e).toNat n

/-- The number with trailing zeros moved into the exponent, at most `fuel` of them. -/
def normalized : Nat → Nat → Int → Nat × Int
  | 0, n, e => (n, e)
  | fuel + 1, n, e => if n ≠ 0 ∧ n % 10 = 0 then normalized fuel (n / 10) (e + 1) else (n, e)

/-- The shortest digits without trailing zeros. -/
def shortestParts (m : Nat) (q : Int) : Nat × Int :=
  let (n, e) := shortestDigits m q
  normalized 400 n e

/-- The shortest text that reads back as the double. -/
def shortest (x : Float) : String :=
  match Binary.ofFloat x with
  | .nan => "NaN"
  | .infinite negative => signed negative "inf"
  | .finite negative m q =>
    if m = 0 then signed negative "0"
    else
      let (n, e) := shortestParts m q
      signed negative (positional n e)

/-- The number `n * 10 ^ e` with one digit before the point and an exponent. -/
def scientific (n : Nat) (e : Int) : String :=
  let ds := digits n
  let exponent := e + (ds.length : Int) - 1
  let rest := (ds.drop 1).toString
  let mantissa := (ds.take 1).toString ++ if rest.isEmpty then "" else "." ++ rest
  mantissa ++ "e" ++ toString exponent

/-- The shortest text that reads back as the double and shows that it is one: a whole number keeps
`.0`, and from `10 ^ 16` on and below `10 ^ -4` there is an exponent. -/
def detailed (x : Float) : String :=
  match Binary.ofFloat x with
  | .nan => "NaN"
  | .infinite negative => signed negative "inf"
  | .finite negative m q =>
    if m = 0 then signed negative "0.0"
    else
      let (n, e) := shortestParts m q
      let k := e + ((digits n).length : Int)
      signed negative <|
        if 16 < k ∨ k < -3 then scientific n e
        else if 0 ≤ e then positional n e ++ ".0"
        else positional n e

end ClauseExchange.Decimal
