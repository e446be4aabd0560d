import ClauseExchange.Duration

/-!
# Time by phase

A worker is always in one of four phases, or in none. A `Stopwatch` charges the time between two
readings of the clock to the phase that was running; the readings are handed in by its user.
-/

namespace ClauseExchange

/-- What a worker spends its time on. -/
inductive Phase
  /-- The engine's own search. -/
  | running
  /-- Waiting for another worker's clause set. -/
  | waiting
  /-- Exporting and importing clauses. -/
  | exchanging
  /-- Computing the length of periods, and bookkeeping. -/
  | periodUpdate
  deriving DecidableEq, Repr

namespace Phase

/-- All phases, in the order in which they are listed. -/
def all : List Phase := [running, waiting, exchanging, periodUpdate]

/-- The wording of a phase. -/
def text : Phase → String
  | running => "running"
  | waiting => "waiting"
  | exchanging => "exchanging"
  | periodUpdate => "period-update"

end Phase

/-- The time spent in every phase. -/
structure PhaseTimes where
  running : Duration := {}
  waiting : Duration := {}
  exchanging : Duration := {}
  periodUpdate : Duration := {}
  deriving DecidableEq, Repr, Inhabited

namespace PhaseTimes

/-- The time spent in one phase. -/
def get (t : PhaseTimes) : Phase → Duration
  | .running => t.running
  | .waiting => t.waiting
  | .exchanging => t.exchanging
  | .periodUpdate => t.periodUpdate

/-- Charges nanoseconds to one phase. -/
def charge (t : PhaseTimes) (phase : Phase) (nanos : Nat) : PhaseTimes :=
  match phase with
  | .running => { t with running := ⟨t.running.nanos + nanos⟩ }
  | .waiting => { t with waiting := ⟨t.waiting.nanos + nanos⟩ }
  | .exchanging => { t with exchanging := ⟨t.exchanging.nanos + nanos⟩ }
  | .periodUpdate => { t with periodUpdate := ⟨t.periodUpdate.nanos + nanos⟩ }

/-- The phases with their times. -/
def toList (t : PhaseTimes) : List (Phase × Duration) := Phase.all.map fun p => (p, t.get p)

/-- The time of all phases together. -/
def total (t : PhaseTimes) : Duration := ⟨t.toList.foldr (fun p n => p.2.nanos + n) 0⟩

/-- The time of all phases but waiting. -/
def nonWaiting (t : PhaseTimes) : Duration := ⟨t.total.nanos - t.waiting.nanos⟩

end PhaseTimes

/-- A stopwatch that charges time to one phase at a time. -/
structure Stopwatch where
  /-- The time charged so far. -/
  times : PhaseTimes := {}
  /-- The phase that is running, and when it started. -/
  current? : Option (Phase × Duration) := none
  deriving DecidableEq, Repr, Inhabited

namespace Stopwatch

/-- The times if the clock shows `now`, with the running phase included. -/
def timesAt (w : Stopwatch) (now : Duration) : PhaseTimes :=
  match w.current? with
  | none => w.times
  | some (phase, since) => w.times.charge phase (now.nanos - since.nanos)

/-- Ends the running phase when the clock shows `now`. -/
def stop (w : Stopwatch) (now : Duration) : Stopwatch :=
  { times := w.timesAt now, current? := none }

/-- Ends the running phase and starts another when the clock shows `now`. -/
def start (w : Stopwatch) (phase : Phase) (now : Duration) : Stopwatch :=
  { w.stop now with current? := some (phase, now) }

/-- Has one phase running from now on, or none. -/
def switch (w : Stopwatch) (phase? : Option Phase) (now : Duration) : Stopwatch :=
  if w.current?.map Prod.fst = phase? then w
  else
    match phase? with
    | none => w.stop now
    | some phase => w.start phase now

end Stopwatch

end ClauseExchange
