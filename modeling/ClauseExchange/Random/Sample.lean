import ClauseExchange.Config
import ClauseExchange.Random.ChaCha

/-!
# Random choices

Natural numbers from a range and choices with a probability. `Sampler` is what the library relies on:
a number from a range lies in it, and the rest is up to the sampler.

The sampler at hand draws from a stream of words. A number up to a limit is the high word of the
product of a random word and the size of the range; where the low word of the product leaves the
result open, a second random word refines it. `Sample.upTo_le` says that a number stays within its
limit, whatever the stream.
-/

namespace ClauseExchange

/-- A computation that draws from a stream and may fail. -/
abbrev Draw (ρ α : Type) := ExceptT Fault (StateM ρ) α

/-- The width of the random words for a range. -/
inductive Width
  | single
  | double
  deriving DecidableEq, Repr

/-- The number of words of a width. -/
def Width.size : Width → Nat
  | single => 4294967296
  | double => 18446744073709551616

/-- A source of random choices with states in `ρ`. -/
class Sampler (ρ : Type) where
  /-- A number between two others, which are words of the width. -/
  number : Width → Nat → Nat → ρ → Nat × ρ
  /-- A choice that is true with a probability. -/
  choice : Float → ρ → Bool × ρ
  /-- A number from a range that is not empty lies in it. -/
  number_mem : ∀ (width : Width) {low high : Nat}, low ≤ high → ∀ s : ρ,
    low ≤ (number width low high s).1 ∧ (number width low high s).1 ≤ high

namespace Sample

section Drawing

variable {ρ : Type} [Sampler ρ]

/-- A number from `low` to `high`. -/
def range (width : Width) (low high : Nat) : Draw ρ Nat :=
  ExceptT.mk fun s =>
    if high < low then (.error .emptyRange, s)
    else
      let (n, s) := Sampler.number width low high s
      (.ok n, s)

/-- A choice that is true with probability `p`. -/
def chance (p : Float) : Draw ρ Bool :=
  ExceptT.mk fun s =>
    if p.isNaN then (.error .notAProbability, s)
    else
      let (b, s) := Sampler.choice p s
      (.ok b, s)

theorem range_mem (width : Width) (low high : Nat) (h : low ≤ high) (s : ρ) :
    ∃ n s', (range width low high).run.run s = (.ok n, s') ∧ low ≤ n ∧ n ≤ high := by
  refine ⟨(Sampler.number width low high s).1, (Sampler.number width low high s).2, ?_,
    Sampler.number_mem width h s⟩
  simp [range, ExceptT.mk, ExceptT.run, StateT.run, Nat.not_lt.2 h]

end Drawing

/-! ## Sampling from a stream of words -/

section Words

variable {ρ : Type} [WordSource ρ]

/-- A random 64-bit word; the first word drawn is its low half. -/
def long (s : ρ) : Nat × ρ :=
  let (low, s) := WordSource.next s
  let (high, s) := WordSource.next s
  (high.toNat * 4294967296 + low.toNat, s)

/-- A random word of a width. -/
def word (width : Width) (s : ρ) : Nat × ρ :=
  match width with
  | .single => let (x, s) := WordSource.next s; (x.toNat, s)
  | .double => long s

/-- A number up to `limit`, which is a word of the width. -/
def upTo (width : Width) (limit : Nat) (s : ρ) : Nat × ρ :=
  let (x, s) := word width s
  let count := limit + 1
  if width.size ≤ count then (x, s)
  else
    let high := x * count / width.size
    let low := x * count % width.size
    if width.size - count < low then
      let (y, s) := word width s
      (if width.size ≤ low + y * count / width.size then high + 1 else high, s)
    else (high, s)

/-- A choice that is true with probability `p`. A certain choice draws nothing. -/
def decideWith (p : Float) (s : ρ) : Bool × ρ :=
  if p == 1.0 then (true, s)
  else
    let (x, s) := long s
    (decide (x < wholePart (p * 18446744073709551616.0)), s)

theorem long_lt (s : ρ) : (long s).1 < 18446744073709551616 := by
  have h1 := (WordSource.next s).1.toNat_lt
  have h2 := (WordSource.next (WordSource.next s).2).1.toNat_lt
  simp only [long]
  omega

theorem word_lt (width : Width) (s : ρ) : (word width s).1 < width.size := by
  cases width with
  | single => exact (WordSource.next s).1.toNat_lt
  | double => exact long_lt s

/-- The refined product of two words and a count lies below the count. -/
theorem refined_lt {size count x y : Nat} (hx : x < size) (hy : y < size)
    (h : size ≤ x * count % size + y * count / size) : x * count / size + 1 < count := by
  have hs : 0 < size := by omega
  have hx' := Nat.div_add_mod (x * count) size
  have hcount : 0 < count := by
    rcases Nat.eq_zero_or_pos count with rfl | h'
    · simp at h
      omega
    · exact h'
  have hy' : y * count / size < count := by
    rw [Nat.div_lt_iff_lt_mul hs, Nat.mul_comm]
    exact Nat.mul_lt_mul_of_pos_left hy hcount
  have hxc : (x + 1) * count ≤ size * count := Nat.mul_le_mul_right _ hx
  rcases Nat.lt_or_ge (x * count / size + 1) count with hlt | hle
  · exact hlt
  · have : size * count ≤ size * (x * count / size + 1) := Nat.mul_le_mul_left _ hle
    grind

theorem upTo_le (width : Width) (limit : Nat) (s : ρ) : (upTo width limit s).1 ≤ limit := by
  have hx := word_lt width s
  have hs : 0 < width.size := by omega
  unfold upTo
  simp only
  split
  · simp only
    omega
  · have hhigh : (word width s).1 * (limit + 1) / width.size < limit + 1 := by
      rw [Nat.div_lt_iff_lt_mul hs, Nat.mul_comm]
      exact Nat.mul_lt_mul_of_pos_left hx (by omega)
    split
    · have hy := word_lt width (word width s).2
      simp only
      split
      · rename_i h
        have := refined_lt hx hy h
        omega
      · omega
    · simp only
      omega

end Words

end Sample

/-- The sampler of a stream of words. -/
instance {ρ : Type} [WordSource ρ] : Sampler ρ where
  number width low high s :=
    let (n, s) := Sample.upTo width (high - low) s
    (low + n, s)
  choice := Sample.decideWith
  number_mem width low high h s := by
    have hn := Sample.upTo_le width (high - low) s
    constructor
    · exact Nat.le_add_right _ _
    · simp only
      omega

end ClauseExchange
