import ClauseExchange.Queue
import ClauseExchange.ClauseSet

/-!
# Outboxes

Clauses that a worker has learnt and not yet published. They are grouped by quality, where a
smaller number is better, and a group keeps its clauses in the order of arrival. A drain moves
clauses into an open clause set, best quality first and oldest first within a quality, until the
next clause would exceed a budget of literals.

A drain is a sequence of picks. `Outbox.pick` decides about one clause, so that a worker can
publish the clauses one at a time, and `Outbox.drainInto` picks until the drain is over.
-/

namespace ClauseExchange

/-- The counts of a drain so far. -/
structure Drain where
  /-- Clauses moved into the destination. -/
  clauses : Nat := 0
  /-- Literals moved into the destination. -/
  literals : Nat := 0
  /-- Clauses dropped because each alone exceeds the budget. -/
  oversized : Nat := 0
  deriving DecidableEq, Repr, Inhabited

namespace Drain

/-- Counts a moved clause. -/
def move (d : Drain) (c : Clause) : Drain :=
  { d with clauses := d.clauses + 1, literals := d.literals + c.length }

/-- Counts a dropped clause. -/
def drop (d : Drain) : Drain := { d with oversized := d.oversized + 1 }

end Drain

/-- Staged clauses by quality, best quality first. -/
abbrev Groups := List (Nat × Queue Clause)

namespace Groups

/-- Adds a clause behind the others of its quality. -/
def insert (quality : Nat) (c : Clause) : Groups → Groups
  | [] => [(quality, Queue.empty.push c)]
  | (k, queue) :: rest =>
    if quality < k then (quality, Queue.empty.push c) :: (k, queue) :: rest
    else if quality = k then (k, queue.push c) :: rest
    else (k, queue) :: insert quality c rest

/-- The first clause and the groups without it; groups found empty on the way are removed. -/
def pop? : Groups → Option (Clause × Groups)
  | [] => none
  | (k, queue) :: rest =>
    match queue.pop? with
    | some (c, queue) => some (c, (k, queue) :: rest)
    | none => pop? rest

/-- The groups from the first one that holds a clause. -/
def trim (gs : Groups) : Groups := gs.dropWhile fun g => g.2.length == 0

/-- All clauses with their qualities, in the order a drain takes them. -/
def staged (gs : Groups) : List (Nat × Clause) :=
  gs.flatMap fun g => g.2.toList.map fun c => (g.1, c)

/-- The number of clauses. -/
def size (gs : Groups) : Nat := gs.foldr (fun g n => g.2.length + n) 0

theorem size_of_pop? {gs rest : Groups} {c : Clause} (h : gs.pop? = some (c, rest)) :
    gs.size = rest.size + 1 := by
  induction gs with
  | nil => simp [pop?] at h
  | cons g gs ih =>
    obtain ⟨k, queue⟩ := g
    rw [pop?] at h
    split at h
    · rename_i hq
      obtain ⟨rfl, rfl⟩ := h
      have := Queue.length_of_pop? hq
      simp [size]
      omega
    · rename_i hq
      have := ih h
      have := congrArg List.length (Queue.toList_of_pop?_eq_none hq)
      simp_all [size]

end Groups

/-- Clauses staged for publication. -/
structure Outbox where
  /-- The clauses by quality. -/
  groups : Groups := []
  /-- The number of staged clauses. -/
  numClauses : Nat := 0
  /-- The number of literals in the staged clauses. -/
  numLiterals : Nat := 0
  deriving Repr, Inhabited

namespace Outbox

/-- Stages a clause. -/
def add (o : Outbox) (c : Clause) (quality : Nat) : Outbox where
  groups := o.groups.insert quality c
  numClauses := o.numClauses + 1
  numLiterals := o.numLiterals + c.length

/-- Takes a clause that has left out of the counts. -/
def discount (o : Outbox) (c : Clause) : Outbox :=
  { o with numClauses := o.numClauses - 1, numLiterals := o.numLiterals - c.length }

/-- Whether no clause is staged. -/
def isEmpty (o : Outbox) : Bool := o.numClauses == 0

/-- The qualities of the groups, ascending. -/
def keys (o : Outbox) : List Nat := o.groups.map (·.1)

/-- What a drain does with the next staged clause. -/
inductive Pick
  /-- The drain is over: nothing is left, or the next clause does not fit. -/
  | over (rest : Outbox)
  /-- The next clause exceeds the whole budget and is dropped. -/
  | oversized (rest : Outbox)
  /-- The next clause is to be published; the counts still include it. -/
  | publish (clause : Clause) (rest : Outbox)

/-- The next pick of a drain that has moved `spent` literals. A budget of `0` is no limit. -/
def pick (budget spent : Nat) (o : Outbox) : Pick :=
  match o.groups.pop? with
  | none => .over { o with groups := [] }
  | some (c, groups) =>
    if 0 < budget ∧ budget < c.length then
      .oversized ({ o with groups }.discount c)
    else if 0 < budget ∧ budget < spent + c.length then
      .over { o with groups := o.groups.trim }
    else
      .publish c { o with groups }

theorem size_of_pick_oversized {budget spent : Nat} {o rest : Outbox}
    (h : o.pick budget spent = .oversized rest) : rest.groups.size < o.groups.size := by
  unfold pick at h
  split at h
  · simp at h
  · rename_i hp
    have := Groups.size_of_pop? hp
    split at h
    · cases h
      simp only [discount]
      omega
    · split at h <;> simp at h

theorem size_of_pick_publish {budget spent : Nat} {o rest : Outbox} {c : Clause}
    (h : o.pick budget spent = .publish c rest) : rest.groups.size < o.groups.size := by
  unfold pick at h
  split at h
  · simp at h
  · rename_i hp
    have := Groups.size_of_pop? hp
    split at h
    · simp at h
    · split at h
      · simp at h
      · cases h
        simp only
        omega

/-- Drains into `dest` after the moves counted in `d`. -/
def drainFrom (budget : Nat) (d : Drain) (o : Outbox) (dest : ClauseSet) :
    Except Fault Drain × Outbox × ClauseSet :=
  match _h : o.pick budget d.literals with
  | .over rest => (.ok d, rest, dest)
  | .oversized rest => drainFrom budget d.drop rest dest
  | .publish c rest =>
    match dest.append c with
    | .error f => (.error f, rest, dest)
    | .ok dest => drainFrom budget (d.move c) (rest.discount c) dest
termination_by o.groups.size
decreasing_by
  · exact size_of_pick_oversized (by assumption)
  · simpa only [discount] using size_of_pick_publish ‹_›

/-- Moves staged clauses into `dest` without exceeding the budget of literals, and drops every
clause on the way that alone exceeds it. What is left behind keeps its order for a later drain.

A clause that `dest` refuses is lost, and the counts still include it. -/
def drainInto (o : Outbox) (dest : ClauseSet) (budget : Nat) :
    Except Fault Drain × Outbox × ClauseSet :=
  drainFrom budget {} o dest

/-- The staged clauses in written form, each group under its quality. -/
def text (o : Outbox) : String :=
  String.join <| o.groups.map fun (k, queue) =>
    s!"Key {k}\n" ++ String.join (queue.toList.map fun c => "  " ++ c.text ++ "\n")

end Outbox

end ClauseExchange
