import ClauseExchange.Runner

/-!
# Exchanges

All runners of an exchange with what they share. A schedule lists which worker takes the next
turn; a worker that has to wait, or has left, lets its turn pass. Every order in which the calls of
several workers can fall is the order of some schedule.
-/

namespace ClauseExchange

/-- The state of an exchange. -/
structure Exchange (σ : Type) where
  /-- What the workers share. -/
  shared : Shared
  /-- The runners, by the numbers of their workers. -/
  runners : Array (Runner σ)

namespace Exchange

variable {σ : Type}

/-- The turn of one worker. -/
def turn (E : Engine σ) (x : Exchange σ) (i : Nat) : Exchange σ :=
  match x.runners[i]? with
  | none => x
  | some r =>
    let (r, shared) := r.turn E x.shared
    ⟨shared, x.runners.setIfInBounds i r⟩

/-- The state after a schedule. -/
def follow (E : Engine σ) (x : Exchange σ) (schedule : List Nat) : Exchange σ :=
  schedule.foldl (turn E) x

/-- Whether all workers have left. -/
def isOver (x : Exchange σ) : Bool := x.runners.all (·.isOver)

/-- Lets one worker take up to `fuel` turns. -/
def runOne (E : Engine σ) (fuel : Nat) (x : Exchange σ) (i : Nat) : Exchange σ :=
  match x.runners[i]? with
  | none => x
  | some r =>
    let (r, shared) := r.run E fuel x.shared
    ⟨shared, x.runners.setIfInBounds i r⟩

/-- Lets every worker take up to `quantum` turns at a time, for up to `rounds` rounds, until all
have left. -/
def rotate (E : Engine σ) (quantum : Nat) : Nat → Exchange σ → Exchange σ
  | 0, x => x
  | rounds + 1, x =>
    if x.isOver then x
    else rotate E quantum rounds ((List.range x.runners.size).foldl (runOne E quantum) x)

end Exchange

end ClauseExchange
