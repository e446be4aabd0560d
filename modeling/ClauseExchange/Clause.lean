import ClauseExchange.Word

/-!
# Clauses

A clause is a disjunction of literals. A literal is a non-zero integer: `v` is variable `v`
asserted, `-v` is variable `v` denied. The literal `0` ends a clause in its written form and is
never part of one, which the type `Clause` records.

A `Batch` holds clauses that wait for an engine, the units apart from the rest.
-/

namespace ClauseExchange

/-- A variable, or its negation. -/
abbrev Literal := Int

/-- A disjunction of literals. -/
structure Clause where
  /-- The literals, in order. -/
  literals : List Literal
  /-- No literal is the terminator. -/
  ne_zero : ∀ l ∈ literals, l ≠ 0
  deriving DecidableEq, Repr

namespace Clause

/-- The clause without literals. -/
def empty : Clause := ⟨[], by simp⟩

instance : Inhabited Clause := ⟨empty⟩

/-- The clause of the given literals, none of which may be `0`. -/
def ofLiterals (ls : List Literal) : Except Fault Clause :=
  if h : ∀ l ∈ ls, l ≠ 0 then .ok ⟨ls, h⟩ else .error .zeroLiteral

/-- The number of literals. -/
def length (c : Clause) : Nat := c.literals.length

/-- Whether the clause has no literal. -/
def isEmpty (c : Clause) : Bool := c.literals.isEmpty

/-- Whether the clause has exactly one literal. -/
def isUnit (c : Clause) : Bool := c.length == 1

/-- The written form of a clause: its literals and the terminator, separated by blanks. -/
def text (c : Clause) : String :=
  c.literals.foldr (fun l rest => toString l ++ " " ++ rest) "0"

end Clause

/-- Clauses received from other workers, in the order they came. -/
structure Batch where
  /-- The clauses of one literal. -/
  units : Array Clause := #[]
  /-- All other clauses. -/
  clauses : Array Clause := #[]
  deriving DecidableEq, Repr

namespace Batch

/-- Whether the batch holds no clause. -/
def isEmpty (b : Batch) : Bool := b.units.isEmpty && b.clauses.isEmpty

/-- The number of clauses. -/
def length (b : Batch) : Nat := b.units.size + b.clauses.size

/-- Adds one clause at the end, to the units or to the rest. -/
def push (b : Batch) (c : Clause) : Batch :=
  if c.isUnit then { b with units := b.units.push c } else { b with clauses := b.clauses.push c }

/-- Adds clauses at the end, one after another. -/
def append (b : Batch) (cs : List Clause) : Batch := cs.foldl push b

theorem append_nil (b : Batch) : b.append [] = b := rfl

theorem append_cons (b : Batch) (c : Clause) (cs : List Clause) :
    b.append (c :: cs) = (b.push c).append cs := rfl

theorem append_append (b : Batch) (cs ds : List Clause) :
    (b.append cs).append ds = b.append (cs ++ ds) := List.foldl_append.symm

@[simp] theorem toList_units_append (b : Batch) (cs : List Clause) :
    (b.append cs).units.toList = b.units.toList ++ cs.filter (·.isUnit) := by
  induction cs generalizing b with
  | nil => simp [append_nil]
  | cons c cs ih =>
    rw [append_cons, ih, push]
    by_cases hc : c.isUnit <;> simp [hc]

@[simp] theorem toList_clauses_append (b : Batch) (cs : List Clause) :
    (b.append cs).clauses.toList = b.clauses.toList ++ cs.filter (!·.isUnit) := by
  induction cs generalizing b with
  | nil => simp [append_nil]
  | cons c cs ih =>
    rw [append_cons, ih, push]
    by_cases hc : c.isUnit <;> simp [hc]

end Batch

end ClauseExchange
