import ClauseExchange.Engine

/-!
# Engines that follow a script

`Scripted` is an engine whose every step is written down beforehand: how much work a step takes,
which clauses it exports, when it applies imported clauses and when it concludes. It keeps a log of
what its worker did to it. `Brief` is an engine that works for one period and then concludes.

Both serve to put an exchange through its paces.
-/

namespace ClauseExchange

/-- A clause that a scripted engine exports again and again. -/
structure Offer where
  /-- The literals at the first step. -/
  literals : List Literal
  /-- The clause is exported in every so many steps. -/
  every : Nat := 1
  /-- How far the variables move from one step to the next. -/
  shift : Int := 0
  /-- The quality under which the clause is offered. -/
  quality : Nat := 1
  deriving DecidableEq, Repr

namespace Offer

/-- The literal of a step, moved away from zero. -/
def literalAt (o : Offer) (step : Nat) (l : Literal) : Except Fault Literal := do
  let distance ← SignedWord.check (o.shift * (step - 1))
  SignedWord.check (if l < 0 then l - distance else l + distance)

/-- The clause of a step. -/
def clauseAt (o : Offer) (step : Nat) : Except Fault Clause := do
  Clause.ofLiterals (← o.literals.mapM (o.literalAt step))

end Offer

/-- What a scripted engine does. -/
structure Script where
  /-- The work of a step. -/
  work : Nat := 10
  /-- The conflicts of a step. -/
  conflicts : Nat := 1
  /-- The exported clauses. -/
  offers : List Offer := []
  /-- Imported clauses are applied in every so many steps; `0` is never. -/
  applyEvery : Nat := 0
  /-- Whether imported clauses are applied when the worker wants it. -/
  forced : Bool := true
  /-- The units that contradict what the engine has fixed. -/
  conflictOn : List Literal := []
  /-- The period in which the engine concludes. -/
  concludeAt? : Option Nat := none
  /-- The step in which the engine concludes. -/
  concludeSteps? : Option Nat := none
  /-- The verdict with which it concludes. -/
  verdict : Verdict := .unsatisfiable
  /-- The step in which the engine fails. -/
  failAt? : Option Nat := none
  /-- The assignment that the engine shows. -/
  model? : Option (List Literal) := none
  /-- The step in which the engine gives up. -/
  maxSteps : Nat := 100000
  deriving DecidableEq, Repr, Inhabited

/-- What a worker did to a scripted engine. -/
structure ScriptLog where
  /-- The applied batches. -/
  applied : Array Batch := #[]
  /-- How often the engine was told to export more. -/
  relaxed : Nat := 0
  /-- How often the engine was told to export less. -/
  tightened : Nat := 0
  /-- The steps taken. -/
  steps : Nat := 0
  deriving DecidableEq, Repr, Inhabited

/-- Where a scripted engine stands in a step. -/
inductive ScriptControl
  /-- About to begin a step. -/
  | beginning
  /-- Exporting a clause, before the remaining offers. -/
  | exporting (clause : Clause) (quality : Nat) (rest : List Offer)
  /-- Spending the work of the step. -/
  | spending
  /-- Looking whether the period is used up. -/
  | looking
  /-- Ending the period. -/
  | checking
  /-- Asking whether imported clauses have to be applied. -/
  | asking
  /-- Applying imported clauses. -/
  | applying
  /-- Looking whether it is time to conclude. -/
  | judging
  | concluding (verdict : Verdict)
  | failing (fault : Fault)
  deriving DecidableEq, Repr

/-- The state of a scripted engine. -/
structure Scripted where
  script : Script
  /-- The worst quality that is exported; every quality if there is none. -/
  threshold? : Option Nat := none
  counters : EngineStatistics := {}
  log : ScriptLog := {}
  control : ScriptControl := .beginning
  deriving DecidableEq, Repr

namespace Scripted

instance : Inhabited Scripted := ⟨{ script := {} }⟩

/-- Whether an offer is made in the present step. -/
def makes (e : Scripted) (o : Offer) : Bool :=
  e.log.steps % o.every == 0 &&
    match e.threshold? with
    | none => true
    | some threshold => decide (o.quality ≤ threshold)

/-- Goes on to the next clause to export, or to the work of the step. -/
def offer (e : Scripted) : List Offer → Scripted
  | [] => { e with control := .spending }
  | o :: rest =>
    if e.makes o then
      match o.clauseAt e.log.steps with
      | .error f => { e with control := .failing f }
      | .ok c => { e with control := .exporting c o.quality rest }
    else offer e rest

/-- The counters after one more step. -/
def countStep (e : Scripted) : Except Fault EngineStatistics := do
  let conflicts ← Word.add e.counters.conflicts e.script.conflicts
  let propagations ← Word.add e.counters.propagations e.script.work
  return { e.counters with conflicts, propagations }

/-- Begins a step. -/
def begin (e : Scripted) : Scripted :=
  let e := { e with log := { e.log with steps := e.log.steps + 1 } }
  if e.script.failAt? = some e.log.steps then
    { e with control := .failing (.engine "engine failure") }
  else
    match e.countStep with
    | .error f => { e with control := .failing f }
    | .ok counters => { e with counters }.offer e.script.offers

/-- Goes on after the period has been looked after. -/
def proceed (e : Scripted) : Scripted :=
  let control : ScriptControl :=
    if e.script.applyEvery ≠ 0 ∧ e.log.steps % e.script.applyEvery = 0 then .applying
    else if e.script.forced then .asking
    else .judging
  { e with control }

/-- Concludes if it is time, or begins the next step. -/
def judge (e : Scripted) (period : Nat) : Scripted :=
  let due (limit? : Option Nat) (reached : Nat) : Bool :=
    match limit? with
    | none => false
    | some limit => decide (limit ≤ reached)
  let control : ScriptControl :=
    if due e.script.concludeAt? period || due e.script.concludeSteps? e.log.steps then
      .concluding e.script.verdict
    else if e.script.maxSteps ≤ e.log.steps then .concluding .unknown
    else .beginning
  { e with control }

/-- What a scripted engine asks of its worker. -/
def request (e : Scripted) : Request :=
  match e.control with
  | .beginning | .looking | .judging => .observe
  | .exporting c quality _ => .exportCandidate c quality
  | .spending => .addWork e.script.work
  | .checking => .checkPeriod
  | .asking => .shouldApply
  | .applying => .applyImported
  | .concluding v => .conclude v
  | .failing f => .fail f

/-- The state of a scripted engine after a reply. -/
def resume (e : Scripted) (r : Reply) : Scripted :=
  match e.control, r with
  | .beginning, _ => e.begin
  | .exporting _ _ rest, _ => e.offer rest
  | .spending, _ => { e with control := .looking }
  | .looking, .seen view => if view.atBoundary then { e with control := .checking } else e.proceed
  | .checking, .answer true => { e with control := .looking }
  | .checking, .answer false => { e with control := .concluding .unknown }
  | .asking, .answer yes => { e with control := if yes then .applying else .judging }
  | .applying, .applied .conflict => { e with control := .concluding .unsatisfiable }
  | .applying, .applied .applied => { e with control := .judging }
  | .judging, .seen view => e.judge view.period
  | _, _ => e

/-- Applies imported clauses: they are logged, and some unit may be a contradiction. -/
def apply (e : Scripted) (b : Batch) : Except Fault ApplyOutcome × Scripted :=
  let redundant := e.counters.redundantClauses + b.clauses.size
  let conflict := b.units.any fun c =>
    match c.literals with
    | [] => false
    | l :: _ => e.script.conflictOn.contains l
  (.ok (if conflict then .conflict else .applied),
    { e with
      log := { e.log with applied := e.log.applied.push b }
      counters := { e.counters with redundantClauses := redundant } })

/-- Exports one more quality. -/
def relax (e : Scripted) : Except Fault Unit × Scripted :=
  let e := { e with log := { e.log with relaxed := e.log.relaxed + 1 } }
  match e.threshold?.mapM (Word.addHalf · 1) with
  | .error f => (.error f, e)
  | .ok threshold? => (.ok (), { e with threshold? })

/-- Exports one quality less, but always the best. -/
def tighten (e : Scripted) : Except Fault Unit × Scripted :=
  let log := { e.log with tightened := e.log.tightened + 1 }
  (.ok (), { e with log, threshold? := e.threshold?.map fun t => max 1 (t - 1) })

/-- The engine that follows its script. -/
def engine : Engine Scripted where
  request := request
  resume := resume
  apply := apply
  statistics e := .ok e.counters
  relax := relax
  tighten := tighten
  exportThreshold e := .ok (e.threshold?.getD 0)
  model e := .ok e.script.model?

end Scripted

/-- The state of an engine that works for one period and then finds an assignment. -/
inductive Brief
  | beginning
  | spending (units : Nat)
  | checking
  | concluding
  deriving DecidableEq, Repr, Inhabited

namespace Brief

/-- The engine that works for one period. -/
def engine : Engine Brief where
  request
    | beginning => .observe
    | spending units => .addWork units
    | checking => .checkPeriod
    | concluding => .conclude .satisfiable
  resume
    | beginning, .seen view => spending view.periodLength
    | beginning, _ => beginning
    | spending _, _ => checking
    | checking, _ => concluding
    | concluding, _ => concluding
  apply e _ := (.ok .applied, e)
  statistics
    | beginning => .ok {}
    | _ => .ok { conflicts := 1 }

end Brief

end ClauseExchange
