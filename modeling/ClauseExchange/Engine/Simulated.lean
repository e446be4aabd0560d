import ClauseExchange.Engine
import ClauseExchange.Random.Sample

/-!
# Simulated engines

An engine that solves nothing and behaves like one that does. Every step is a conflict that takes a
random amount of work; some conflicts teach a random clause, which is exported if it is good
enough. Units, whether learnt or imported, are fixed. After a number of conflicts, which is drawn
once from a range, the engine returns the verdict it was made with. An engine made to find the
formula unsatisfiable concludes as soon as it meets a unit that contradicts a fixed one.

All it does is a function of its seed, its worker's number and the clauses it imports.
-/

namespace ClauseExchange

/-- The parameters of a simulated engine. -/
structure Simulation where
  seed : Nat := 0
  /-- The number of variables. -/
  numVars : Nat := 200
  /-- The most literals drawn for a clause. -/
  maxClauseLength : Nat := 8
  /-- The worst quality of a learnt clause; the best is `1`. -/
  maxQuality : Nat := 10
  /-- The probability that a conflict teaches a clause. -/
  learnProbability : Float := 0.5
  /-- The least work of a conflict. -/
  minStepWork : Nat := 50
  /-- The most work of a conflict. -/
  maxStepWork : Nat := 500
  /-- The conflicts between two restarts, at which imported clauses are applied. -/
  restartInterval : Nat := 100
  /-- The least number of conflicts before the verdict. -/
  concludeAfter : Nat := 20000
  /-- The most conflicts added to that number. -/
  concludeJitter : Nat := 5000
  verdict : Verdict := .unsatisfiable
  /-- The worst quality that is exported at first. -/
  initialThreshold : Nat := 3

namespace Simulation

instance : Inhabited Simulation := ⟨{}⟩

/-- Returns `verdict` after `conflicts` conflicts and up to `jitter` more. -/
def withVerdict (s : Simulation) (verdict : Verdict) (conflicts jitter : Nat) : Simulation :=
  { s with verdict, concludeAfter := conflicts, concludeJitter := jitter }

/-- Sets the bounds on the work of a conflict; the upper one is raised to the lower. -/
def withStepWork (s : Simulation) (least most : Nat) : Simulation :=
  { s with minStepWork := least, maxStepWork := max most least }

/-- Sets the number of variables, at least one. -/
def withNumVars (s : Simulation) (numVars : Nat) : Simulation :=
  { s with numVars := max numVars 1 }

/-- The probability, brought into the range from zero to one. -/
def probability (s : Simulation) : Float :=
  let p := if s.learnProbability < 0.0 then 0.0 else s.learnProbability
  if 1.0 < p then 1.0 else p

/-- The worst quality that a clause can have. -/
def worstQuality (s : Simulation) : Nat := max s.maxQuality 1

/-- The most literals that are drawn for a clause. -/
def longestClause (s : Simulation) : Nat := max s.maxClauseLength 1

end Simulation

namespace Literal

/-- Whether the first of two literals stands before the second in a clause, or is the same: literals
are ordered by variable, and of the two of a variable the negative one comes first. -/
def precedes (l m : Literal) : Bool :=
  l.natAbs < m.natAbs || (l.natAbs == m.natAbs && decide (l ≤ m))

/-- Puts a literal into its place in an ordered list. -/
def place (l : Literal) : List Literal → List Literal
  | [] => [l]
  | m :: rest => if l.precedes m then l :: m :: rest else m :: place l rest

/-- The literals in order. -/
def sort (ls : List Literal) : List Literal := ls.foldr place []

/-- Drops each literal whose variable is that of the last one kept, which is `last` at first. -/
def thinAfter (last : Literal) : List Literal → List Literal
  | [] => []
  | l :: rest => if l.natAbs = last.natAbs then thinAfter last rest else l :: thinAfter l rest

/-- Keeps the first of the literals with one variable that stand next to each other. -/
def thin : List Literal → List Literal
  | [] => []
  | l :: rest => l :: thinAfter l rest

/-- The literals ordered by variable, with one literal of each. -/
def normalize (ls : List Literal) : List Literal := thin (sort ls)

end Literal

/-- The root-level units that an engine has fixed, newest first. -/
abbrev FixedUnits := List Literal

namespace FixedUnits

/-- Fixes a unit; none if its negation is fixed. -/
def fix? (us : FixedUnits) (l : Literal) : Except Fault (Option FixedUnits) :=
  (SignedWord.neg l).map fun opposite =>
    if us.contains opposite then none
    else if us.contains l then some us
    else some (l :: us)

/-- Fixes the units of some clauses in order, passing over those that contradict a fixed one. The
answer tells whether there was a contradiction; a fault ends it with the units fixed so far. -/
def fixAll (us : FixedUnits) (met : Bool) : List Clause → Except Fault Bool × FixedUnits
  | [] => (.ok met, us)
  | c :: rest =>
    match c.literals with
    | [] => (.error .indexOutOfBounds, us)
    | l :: _ =>
      match us.fix? l with
      | .error f => (.error f, us)
      | .ok none => fixAll us true rest
      | .ok (some us) => fixAll us met rest

end FixedUnits

/-- A clause that a conflict teaches, with its quality. -/
structure Learnt where
  clause : Clause
  quality : Nat
  deriving DecidableEq, Repr

/-- Where a simulated engine stands in a step. -/
inductive SimulationControl
  /-- About to have a conflict. -/
  | searching
  /-- Spending the work of a conflict, which may have taught a clause. -/
  | spending (work : Nat) (learnt? : Option Learnt)
  /-- Exporting a learnt clause. -/
  | exporting (learnt : Learnt)
  /-- Looking whether the period is used up. -/
  | looking
  /-- Ending the period. -/
  | checking
  /-- Asking whether imported clauses have to be applied. -/
  | asking
  /-- Applying imported clauses. -/
  | applying
  | concluding (verdict : Verdict)
  | failing (fault : Fault)
  deriving DecidableEq, Repr

/-- The state of a simulated engine that draws from a stream with states in `ρ`. -/
structure Simulated (ρ : Type) where
  simulation : Simulation
  /-- The stream of random words. -/
  source : ρ
  /-- The conflicts before the verdict. -/
  concludeAfter : Nat
  /-- The worst quality that is exported. -/
  threshold : Nat
  counters : EngineStatistics := {}
  /-- The fixed units. -/
  units : FixedUnits := []
  /-- The clauses applied that are no units. -/
  imported : Nat := 0
  control : SimulationControl := .searching

namespace Simulated

variable {ρ : Type}

section Draws

variable [Sampler ρ]

/-- An engine that has not started, drawing from a stream. -/
def start (simulation : Simulation) (source : ρ) : Simulated ρ :=
  let (jitter, source) := Sampler.number .double 0 simulation.concludeJitter source
  { simulation, source
    concludeAfter := Word.satAdd simulation.concludeAfter jitter
    threshold := min (max simulation.initialThreshold 1) simulation.worstQuality }

/-- A random literal over the variables `1` to `numVars`. Beyond the signed words, the numbers of
variables wrap around. -/
def drawLiteral (numVars : Nat) : Draw ρ Literal := do
  let v ← Sample.range .single 1 numVars
  let positive ← Sample.chance 0.5
  let l := Int.bmod v Word.halfBound
  if positive then return l else MonadExcept.ofExcept (SignedWord.neg l)

/-- A list of random literals. -/
def drawLiterals (numVars : Nat) : Nat → Draw ρ (List Literal)
  | 0 => return []
  | n + 1 => do
    let l ← drawLiteral numVars
    return l :: (← drawLiterals numVars n)

/-- The ordered clause of some drawn literals. Literals are ordered by the size of their numbers,
which the smallest signed word does not have. -/
def clauseOf (ls : List Literal) : Except Fault Clause :=
  if 1 < ls.length ∧ SignedWord.min ∈ ls then .error .overflow
  else Clause.ofLiterals (Literal.normalize ls)

/-- What a conflict teaches, if anything. -/
def drawLearnt (s : Simulation) : Draw ρ (Option Learnt) := do
  if ← Sample.chance s.probability then
    let width := if s.longestClause < Word.halfBound then .single else .double
    let length ← Sample.range width 1 s.longestClause
    let literals ← drawLiterals s.numVars length
    let quality ← Sample.range .single 1 s.worstQuality
    let clause ← MonadExcept.ofExcept (clauseOf literals)
    return some { clause, quality }
  else return none

/-- The counters after one more conflict. -/
def countConflict (c : EngineStatistics) (work : Nat) : Except Fault EngineStatistics := do
  let conflicts ← Word.add c.conflicts 1
  let decisions ← Word.add c.decisions (1 + work / 16)
  let propagations ← Word.add c.propagations work
  return { c with conflicts, decisions, propagations }

/-- A conflict: its work, the counters after it and what it teaches. -/
def drawConflict (s : Simulation) (c : EngineStatistics) :
    Draw ρ (Nat × EngineStatistics × Option Learnt) := do
  let work ← Sample.range .double s.minStepWork s.maxStepWork
  let c ← MonadExcept.ofExcept (countConflict c work)
  return (work, c, ← drawLearnt s)

/-- Has a conflict. -/
def search (e : Simulated ρ) : Simulated ρ :=
  match (drawConflict e.simulation e.counters).run.run e.source with
  | (.error f, source) => { e with source, control := .failing f }
  | (.ok (work, counters, learnt?), source) =>
    { e with source, counters, control := .spending work learnt? }

end Draws

/-- Fixes a learnt clause if it is a unit. The answer tells whether it contradicts a fixed one. -/
def fixLearnt (us : FixedUnits) (c : Clause) : Except Fault Bool × FixedUnits :=
  if c.isUnit then us.fixAll false [c] else (.ok false, us)

/-- Learns a clause: a unit is fixed, and a clause that is good enough is exported. -/
def learn (e : Simulated ρ) (learnt : Learnt) : Simulated ρ :=
  match fixLearnt e.units learnt.clause with
  | (.error f, units) => { e with units, control := .failing f }
  | (.ok met, units) =>
    let control : SimulationControl :=
      if met && e.simulation.verdict == .unsatisfiable then .concluding .unsatisfiable
      else if learnt.quality ≤ e.threshold then .exporting learnt
      else .looking
    { e with units, control }

/-- Goes on after the period has been looked after: at a restart imported clauses are applied, else
the worker is asked about them. -/
def proceed (e : Simulated ρ) : Simulated ρ :=
  if e.counters.conflicts % max e.simulation.restartInterval 1 = 0 then
    { e with
      counters := { e.counters with restarts := e.counters.restarts + 1 }
      control := .applying }
  else { e with control := .asking }

/-- Returns the verdict after enough conflicts, or searches on. -/
def judge (e : Simulated ρ) : Simulated ρ :=
  if e.concludeAfter ≤ e.counters.conflicts then
    { e with control := .concluding e.simulation.verdict }
  else { e with control := .searching }

/-- What a simulated engine asks of its worker. -/
def request (e : Simulated ρ) : Request :=
  match e.control with
  | .searching | .looking => .observe
  | .spending work _ => .addWork work
  | .exporting learnt => .exportCandidate learnt.clause learnt.quality
  | .checking => .checkPeriod
  | .asking => .shouldApply
  | .applying => .applyImported
  | .concluding v => .conclude v
  | .failing f => .fail f

/-- The state of a simulated engine after a reply. -/
def resume [Sampler ρ] (e : Simulated ρ) (r : Reply) : Simulated ρ :=
  match e.control, r with
  | .searching, _ => e.search
  | .spending _ none, _ => { e with control := .looking }
  | .spending _ (some learnt), _ => e.learn learnt
  | .exporting _, _ => { e with control := .looking }
  | .looking, .seen view => if view.atBoundary then { e with control := .checking } else e.proceed
  | .checking, .answer true => { e with control := .looking }
  | .checking, .answer false => { e with control := .concluding .unknown }
  | .asking, .answer true => { e with control := .applying }
  | .asking, .answer false => e.judge
  | .applying, .applied .conflict => { e with control := .concluding .unsatisfiable }
  | .applying, .applied .applied => e.judge
  | _, _ => e

/-- Applies imported clauses: units are fixed, and a contradiction is a conflict for an engine that
is to find the formula unsatisfiable. -/
def apply (e : Simulated ρ) (b : Batch) : Except Fault ApplyOutcome × Simulated ρ :=
  match e.units.fixAll false b.units.toList with
  | (.error f, units) => (.error f, { e with units })
  | (.ok met, units) =>
    let n := b.clauses.size
    let outcome :=
      if met && e.simulation.verdict == .unsatisfiable then ApplyOutcome.conflict else .applied
    (.ok outcome,
      { e with
        units
        imported := e.imported + n
        counters := { e.counters with redundantClauses := e.counters.redundantClauses + n } })

/-- Exports one more quality, up to the worst there is. -/
def relax (e : Simulated ρ) : Except Fault Unit × Simulated ρ :=
  match Word.addHalf e.threshold 1 with
  | .error f => (.error f, e)
  | .ok threshold => (.ok (), { e with threshold := min threshold e.simulation.worstQuality })

/-- Exports one quality less, but always the best. -/
def tighten (e : Simulated ρ) : Except Fault Unit × Simulated ρ :=
  (.ok (), { e with threshold := max (e.threshold - 1) 1 })

/-- The value of a variable under the fixed units; it is true unless its negation is fixed. -/
def value (us : FixedUnits) (v : Nat) : Literal :=
  if us.contains (-v : Literal) then -v else v

/-- The assignment of an engine made to find the formula satisfiable. Numbers of variables beyond
the signed words leave none to assign. -/
def model (e : Simulated ρ) : Option (List Literal) :=
  if e.simulation.verdict = .satisfiable then
    let count := if e.simulation.numVars ≤ SignedWord.max.toNat then e.simulation.numVars else 0
    some ((List.range' 1 count).map (value e.units))
  else none

/-- The simulated engine. -/
def engine [Sampler ρ] : Engine (Simulated ρ) where
  request := request
  resume := resume
  apply := apply
  statistics e := .ok e.counters
  relax := relax
  tighten := tighten
  exportThreshold e := .ok e.threshold
  model e := .ok e.model

/-- A simulated engine for a worker. The seeds of different workers differ. -/
def forWorker (s : Simulation) (worker : Nat) : Simulated ChaCha.Stream :=
  let place := UInt64.ofNat worker * 0x9E3779B97F4A7C15
  start s (.ofSeed (UInt64.ofNat s.seed ^^^ place))

end Simulated

end ClauseExchange
