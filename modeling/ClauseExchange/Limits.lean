import ClauseExchange.PhaseTimes

/-!
# Resource limits and measurements

A worker may be stopped because the exchange has used too much time or too much memory. Passing a
limit is not an error: the worker stops at the end of its period, as if it had been told to.

Measurements come from `Sensors`, which answer each look at the clock and each reading of the
memory gauge in turn. A sensor is consulted only for a limit that is set, and the memory gauge only
after the time limit has been kept.

The stopwatches of the workers belong to the measurements as well. They read a clock of their own,
which stands still while a worker takes its turn and shows something else at the next.
-/

namespace ClauseExchange

/-- The limits of an exchange. -/
structure Limits where
  /-- The time that an exchange may take. -/
  time : Option Duration := none
  /-- The memory that an exchange may use, in megabytes. -/
  memory : Option Float := none

/-- The measurements of an exchange, in the order in which they are taken. -/
structure Sensors where
  /-- The time since the start at every look at the clock. -/
  elapsed : Nat → Duration := fun _ => {}
  /-- The memory in use in megabytes at every reading, where it can be measured. -/
  memory : Nat → Option Float := fun _ => none
  /-- How often the clock has been looked at. -/
  looks : Nat := 0
  /-- How often the memory gauge has been read. -/
  readings : Nat := 0
  /-- What the clock of the stopwatches shows in every turn. -/
  clock : Nat → Duration := fun _ => {}
  /-- The number of turns taken. -/
  turns : Nat := 0
  /-- The stopwatch of every worker, which tells the phases of its run apart. -/
  watches : Array Stopwatch := #[]

namespace Sensors

instance : Inhabited Sensors := ⟨{}⟩

/-- Looks at the clock. -/
def look (s : Sensors) : Duration × Sensors := (s.elapsed s.looks, { s with looks := s.looks + 1 })

/-- Reads the memory gauge. -/
def read (s : Sensors) : Option Float × Sensors :=
  (s.memory s.readings, { s with readings := s.readings + 1 })

/-- What the clock of the stopwatches shows now. -/
def now (s : Sensors) : Duration := s.clock s.turns

/-- The time that a worker has spent in every phase by now. -/
def times (s : Sensors) (worker : Nat) : PhaseTimes :=
  ((s.watches[worker]?).getD {}).timesAt s.now

/-- The end of a turn: the stopwatch of the worker goes on with a phase, or stands still. -/
def attend (s : Sensors) (worker : Nat) (phase? : Option Phase) : Sensors :=
  { s with
    watches := s.watches.modify worker (·.switch phase? s.now)
    turns := s.turns + 1 }

/-- A memory gauge that gives the listed readings in turn and repeats the last one. -/
def replay (readings : Array (Option Float)) (k : Nat) : Option Float :=
  (readings[min k (readings.size - 1)]?).join

end Sensors

/-- The limit that was passed, with the measurement that shows it. -/
inductive Breach
  | time (elapsed : Duration)
  | memory (megabytes : Float)

/-- The wording of a breach. -/
def Breach.text : Breach → String
  | time elapsed => "time limit exceeded after " ++ elapsed.text
  | memory megabytes => "memory limit exceeded (" ++ Decimal.fixed 1 megabytes ++ " MB)"

namespace Limits

/-- Whether the memory limit is passed. -/
def checkMemory (l : Limits) (s : Sensors) : Option Breach × Sensors :=
  match l.memory with
  | none => (none, s)
  | some limit =>
    let (used?, s) := s.read
    match used? with
    | none => (none, s)
    | some used => (if limit < used then some (.memory used) else none, s)

/-- The first limit that is passed, the time limit before the memory limit. -/
def check (l : Limits) (s : Sensors) : Option Breach × Sensors :=
  match l.time with
  | none => l.checkMemory s
  | some limit =>
    let (elapsed, s) := s.look
    if limit.nanos < elapsed.nanos then (some (.time elapsed), s) else l.checkMemory s

/-- The limits in written form. -/
def text (l : Limits) : String :=
  let shown (value : Option String) : String :=
    match value with
    | none => "None"
    | some t => "Some(" ++ t ++ ")"
  "ResourceLimits \x7b time_limit: " ++ shown (l.time.map (·.exactText))
    ++ ", memory_limit_mb: " ++ shown (l.memory.map Decimal.detailed) ++ ", .. \x7d"

theorem check_of_unlimited (l : Limits) (s : Sensors) (ht : l.time = none) (hm : l.memory = none) :
    l.check s = (none, s) := by
  simp [check, checkMemory, ht, hm]

end Limits

end ClauseExchange
