import ClauseExchange.CommandLine.Commands
import ClauseExchange.Limits.Resident

/-!
# The program

Reads the arguments, runs the command and prints its response. Workers take turns on one thread;
before each round of turns the clock and the memory in use are measured.
-/

namespace ClauseExchange.CommandLine

/-- The content of a file, empty if it cannot be read. -/
def contentOf (path : String) : IO String := do
  try IO.FS.readFile path
  catch _ => return ""

/-- The number of processors, at least one. -/
def countProcessors : IO Nat := do
  let cs := (← contentOf "/proc/cpuinfo").toList
  return max 1 ((Blank.lines cs).countP fun line => "processor".toList.isPrefixOf line)

/-- Measures time and memory; the run began when the clock showed `start`. -/
def measure (start : Nat) (s : Sensors) : IO Sensors := do
  let now ← IO.monoNanosNow
  let used? := Resident.megabytes? (← contentOf "/proc/self/status")
  let elapsed : Duration := ⟨now - start⟩
  return { s with elapsed := fun _ => elapsed, clock := fun _ => elapsed, memory := fun _ => used? }

/-- Runs a portfolio until all its workers have left. -/
partial def finish (start : Nat) (p : Portfolio (Simulated ChaCha.Stream)) :
    IO (Portfolio (Simulated ChaCha.Stream)) := do
  if p.isOver then return p
  let sensors ← measure start p.shared.sensors
  let p := { p with shared := { p.shared with sensors } }
  finish start (p.rotate Simulated.engine 1000 1)

/-- Carries out `run`. -/
def runPortfolio (g : Given) : IO Response := do
  let start ← IO.monoNanosNow
  match launch g (← countProcessors) {} with
  | .error r => return r
  | .ok p =>
    let p := (← finish start p).attend Simulated.engine
    let elapsed : Duration := ⟨(← IO.monoNanosNow) - start⟩
    match p.outcome? Simulated.engine elapsed with
    | none => return .broken
    | some outcome => return respond g outcome

/-- Carries out a command. -/
def execute : Command → IO Response
  | .run g => runPortfolio g
  | .workers cores limit used factor => do
    return respondWorkers (← countProcessors) cores limit used factor

end ClauseExchange.CommandLine

open ClauseExchange.CommandLine in
/-- Carries out the command that the arguments name, and ends with its exit code. -/
def main (args : List String) : IO UInt32 := do
  let r ←
    match Command.parse args with
    | .error stop => pure stop.response
    | .ok command => execute command
  for line in r.output do
    IO.println line
  if let some error := r.error? then
    IO.eprintln error
  return UInt32.ofNat r.code
