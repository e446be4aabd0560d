/-!
# Rounding ratios

A ratio of natural numbers rounded to the nearest natural number, a half going to the even
neighbour. Rounded texts and binary numbers both rest on `roundDiv`.
-/

namespace ClauseExchange.Ratio

/-- The natural number nearest to `num / den`; a half goes to the even neighbour. -/
def roundDiv (num den : Nat) : Nat :=
  let q := num / den
  let twice := 2 * (num % den)
  if twice < den then q
  else if twice = den then q + q % 2
  else q + 1

end ClauseExchange.Ratio
