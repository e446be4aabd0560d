/-!
# Visiting one entry of an array

`visit` runs a function on one entry of an array, puts the new entry in its place and hands on the
answer. The entry is taken out of the array for the time of the visit, so that the function may
update it in place.
-/

namespace ClauseExchange.Slots

variable {α β : Type} [Inhabited α]

/-- The entry at `i`, and the array with a default value in its place. It is not inlined, because
then the array would keep the entry until after the visit. -/
@[noinline] def takeOut (xs : Array α) (i : Nat) (h : i < xs.size) : α × Array α :=
  xs.swapAt i default h

/-- The answer of `f` on the entry at `i`, and the array with that entry renewed. -/
def visit (xs : Array α) (i : Nat) (h : i < xs.size) (f : α → β × α) : β × Array α :=
  let (a, rest) := takeOut xs i h
  let (b, a) := f a
  (b, rest.setIfInBounds i a)

theorem visit_eq (xs : Array α) (i : Nat) (h : i < xs.size) (f : α → β × α) :
    visit xs i h f = ((f xs[i]).1, xs.set i (f xs[i]).2) := by
  unfold visit takeOut
  simp only [Array.swapAt, Prod.mk.injEq, true_and]
  ext j hj hj'
  · simp
  · simp only [Array.getElem_set]
    grind

end ClauseExchange.Slots
