import ClauseExchange.Exchange

/-!
# The journal of a worker

A schedule determines what every worker experiences: which clauses it imports and from whom, which
sets it acknowledges, which batches its engine takes, and how long its periods are. `Runner.events`
reads this off the step that a runner is about to take, and `Exchange.journal` collects it along a
schedule.
-/

namespace ClauseExchange

/-- Something that happens to a worker. -/
inductive Event
  /-- The clauses of another worker's set were added to the pending batch. -/
  | imported (producer period : Nat) (clauses : List Clause)
  /-- Another worker's set was acknowledged, complete or not. -/
  | acknowledged (producer period : Nat) (complete : Bool)
  /-- The engine took the pending batch, or had it applied. -/
  | taken (batch : Batch)
  /-- A period of the given length was entered. -/
  | entered (periodLength : Nat)
  /-- A rule was broken within a boundary. -/
  | broken
  deriving DecidableEq, Repr

/-- What the next step of a boundary brings, unless it breaks a rule. -/
def Boundary.events (b : Boundary) (w : Worker) (c : Coordinator) : List Event :=
  match b.stage with
  | .reading offset _ period =>
    let producer := w.neighbour offset
    match (c.set? producer period).bind (·.clauses?) with
    | some clauses => [.imported producer period clauses]
    | none => []
  | .acknowledging offset _ period =>
    let producer := w.neighbour offset
    match (c.acknowledge producer w.id period).1 with
    | .ok () => [.acknowledged producer period ((c.set? producer period).any (·.isCompleted))]
    | .error _ => []
  | .entering length =>
    match w.enter length with
    | .ok _ => [.entered length]
    | .error _ => []
  | _ => []

variable {σ : Type}

/-- What the next step of a runner brings. -/
def Runner.events (E : Engine σ) (r : Runner σ) (s : Shared) : List Event :=
  match r.control with
  | .searching =>
    match E.request r.engine with
    | .takeImported => [.taken r.worker.takeImported.1]
    | .applyImported => [.taken r.worker.takeImported.1]
    | _ => []
  | .boundary b =>
    match b.step E r.toPost s with
    | .moved .. => b.events r.worker s.coordinator
    | .failed .. => b.events r.worker s.coordinator ++ [.broken]
  | _ => []

namespace Exchange

/-- What the next turn of a worker brings it. -/
def events (E : Engine σ) (x : Exchange σ) (i : Nat) : List Event :=
  match x.runners[i]? with
  | none => []
  | some r => r.events E x.shared

/-- What worker `w` experiences along a schedule. -/
def journal (E : Engine σ) : Exchange σ → List Nat → Nat → List Event
  | _, [], _ => []
  | x, i :: schedule, w =>
    (if i = w then x.events E w else []) ++ journal E (x.turn E i) schedule w

theorem follow_append (E : Engine σ) (x : Exchange σ) (s t : List Nat) :
    x.follow E (s ++ t) = (x.follow E s).follow E t := List.foldl_append

theorem follow_concat (E : Engine σ) (x : Exchange σ) (s : List Nat) (i : Nat) :
    x.follow E (s ++ [i]) = (x.follow E s).turn E i := follow_append E x s [i]

theorem journal_append (E : Engine σ) (x : Exchange σ) (s t : List Nat) (w : Nat) :
    x.journal E (s ++ t) w = x.journal E s w ++ (x.follow E s).journal E t w := by
  induction s generalizing x with
  | nil => rfl
  | cons i s ih =>
    rw [List.cons_append, journal, journal, ih, List.append_assoc]
    rfl

theorem journal_concat (E : Engine σ) (x : Exchange σ) (s : List Nat) (i w : Nat) :
    x.journal E (s ++ [i]) w =
      x.journal E s w ++ if i = w then (x.follow E s).events E w else [] := by
  rw [journal_append, journal, journal, List.append_nil]

/-- A turn that brings nothing leaves no trace. -/
theorem journal_concat_of_events_eq_nil {E : Engine σ} {x : Exchange σ} {s : List Nat} {i : Nat}
    (h : (x.follow E s).events E i = []) (w : Nat) :
    x.journal E (s ++ [i]) w = x.journal E s w := by
  rw [journal_concat]
  split
  · rename_i hiw
    rw [← hiw, h, List.append_nil]
  · rw [List.append_nil]

/-- Whether `q` holds before every turn of a schedule and after the last one. -/
def throughout (E : Engine σ) (q : Exchange σ → Bool) : Exchange σ → List Nat → Bool
  | x, [] => q x
  | x, i :: schedule => q x && throughout E q (x.turn E i) schedule

theorem of_throughout {E : Engine σ} {q : Exchange σ → Bool} {x : Exchange σ} {schedule : List Nat}
    (h : throughout E q x schedule = true) (n : Nat) :
    q (x.follow E (schedule.take n)) = true := by
  induction schedule generalizing x n with
  | nil =>
    rw [List.take_nil]
    exact h
  | cons i schedule ih =>
    obtain ⟨hx, hrest⟩ := Bool.and_eq_true_iff.1 h
    cases n with
    | zero => exact hx
    | succ n => exact ih hrest n

end Exchange

end ClauseExchange
