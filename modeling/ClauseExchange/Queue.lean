/-!
# Queues

A first-in, first-out queue in two lists. `Queue.toList` is its content, oldest first;
`Queue.toList_push` and `Queue.toList_of_pop?` say what the operations do to it.
-/

namespace ClauseExchange

/-- A queue: `front` holds the oldest entries in order, `back` the newest ones in reverse. -/
structure Queue (α : Type) where
  front : List α := []
  back : List α := []
  deriving Repr

namespace Queue

variable {α : Type}

/-- The queue without entries. -/
def empty : Queue α := {}

instance : Inhabited (Queue α) := ⟨empty⟩

/-- The entries, oldest first. -/
def toList (q : Queue α) : List α := q.front ++ q.back.reverse

/-- The number of entries. -/
def length (q : Queue α) : Nat := q.front.length + q.back.length

/-- Adds an entry behind all others. -/
def push (q : Queue α) (a : α) : Queue α := { q with back := a :: q.back }

/-- The oldest entry and the queue without it. -/
def pop? (q : Queue α) : Option (α × Queue α) :=
  match q.front with
  | a :: front => some (a, { q with front })
  | [] =>
    match q.back.reverse with
    | a :: front => some (a, { front, back := [] })
    | [] => none

@[simp] theorem toList_empty : (empty : Queue α).toList = [] := rfl

@[simp] theorem toList_push (q : Queue α) (a : α) : (q.push a).toList = q.toList ++ [a] := by
  simp [toList, push]

@[simp] theorem length_toList (q : Queue α) : q.toList.length = q.length := by
  simp [toList, length]

/-- Popping splits the content at its first entry. -/
theorem pop?_map_toList (q : Queue α) :
    q.pop?.map (fun p => p.1 :: p.2.toList) = if q.toList = [] then none else some q.toList := by
  rcases q with ⟨front, back⟩
  cases front with
  | cons a front => simp [pop?, toList]
  | nil =>
    cases h : back.reverse with
    | nil => simp_all [pop?, toList]
    | cons a front => simp_all [pop?, toList]

theorem toList_of_pop? {q r : Queue α} {a : α} (h : q.pop? = some (a, r)) :
    q.toList = a :: r.toList := by
  have := pop?_map_toList q
  rw [h] at this
  grind

theorem toList_of_pop?_eq_none {q : Queue α} (h : q.pop? = none) : q.toList = [] := by
  have := pop?_map_toList q
  rw [h] at this
  grind

theorem length_of_pop? {q r : Queue α} {a : α} (h : q.pop? = some (a, r)) :
    q.length = r.length + 1 := by
  rw [← length_toList, ← length_toList, toList_of_pop? h, List.length_cons]

end Queue

end ClauseExchange
