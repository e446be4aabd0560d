import ClauseExchange.Fault

/-!
# Machine words

Counters, periods and worker numbers are 64-bit words and literals are signed 32-bit words. They
are held as `Nat` and `Int`, and an operation whose result leaves the range of the word is a
`Fault.overflow` instead of wrapping around. The saturating operations stop at the largest word.

`Word.add_eq_ok_iff` says when an addition succeeds, and with what; `SignedWord.neg_eq_ok` says that
a negation does but for the smallest word.
-/

namespace ClauseExchange

namespace Word

/-- The number of 64-bit words. -/
def bound : Nat := 18446744073709551616

/-- The largest 64-bit word. -/
def max : Nat := 18446744073709551615

/-- The number of 32-bit words. -/
def halfBound : Nat := 4294967296

/-- The sum of two 64-bit words, if it is one. -/
def add (a b : Nat) : Except Fault Nat :=
  if a + b < bound then .ok (a + b) else .error .overflow

/-- The sum of two unsigned 32-bit words, if it is one. -/
def addHalf (a b : Nat) : Except Fault Nat :=
  if a + b < halfBound then .ok (a + b) else .error .overflow

/-- The difference of two words, if it is not negative. -/
def sub (a b : Nat) : Except Fault Nat :=
  if b ≤ a then .ok (a - b) else .error .overflow

/-- The sum of two 64-bit words, or the largest word if the sum is larger. -/
def satAdd (a b : Nat) : Nat := min (a + b) max

/-- The sum of a list of 64-bit words, if every partial sum is a word. -/
def sum (ws : List Nat) : Except Fault Nat := ws.foldlM add 0

theorem add_eq_ok_iff {a b c : Nat} : add a b = .ok c ↔ c = a + b ∧ a + b < bound := by
  unfold add
  split <;> simp_all [eq_comm]

theorem add_eq_error_iff {a b : Nat} {f : Fault} :
    add a b = .error f ↔ f = .overflow ∧ bound ≤ a + b := by
  unfold add
  split <;> simp_all [eq_comm]

theorem sub_eq_ok_iff {a b c : Nat} : sub a b = .ok c ↔ c = a - b ∧ b ≤ a := by
  unfold sub
  split <;> simp_all [eq_comm]

end Word

namespace SignedWord

/-- The smallest signed 32-bit word. -/
def min : Int := -2147483648

/-- The largest signed 32-bit word. -/
def max : Int := 2147483647

/-- A signed 32-bit word, or an overflow if the integer is none. -/
def check (z : Int) : Except Fault Int :=
  if min ≤ z ∧ z ≤ max then .ok z else .error .overflow

/-- The negative of a signed word; the smallest word has none. -/
def neg (z : Int) : Except Fault Int := check (-z)

theorem check_eq_ok_iff {z w : Int} : check z = .ok w ↔ w = z ∧ min ≤ z ∧ z ≤ max := by
  unfold check
  split <;> grind

theorem of_natAbs_le {z : Int} (h : z.natAbs ≤ max.toNat) : min < z ∧ z ≤ max := by
  simp only [min, max] at *
  omega

theorem neg_eq_ok {z : Int} (hmin : min < z) (hmax : z ≤ max) : neg z = .ok (-z) :=
  check_eq_ok_iff.2 ⟨rfl, by simp only [min, max] at *; omega, by simp only [min, max] at *; omega⟩

end SignedWord

end ClauseExchange
