import ClauseExchange.Exchange
import ClauseExchange.Summary

/-!
# Portfolios

A portfolio runs one engine a worker and collects the result. Its host starts the workers, waits
until each has sent notice, until it finds that no worker runs any more, or until all have hung up,
and then waits for all of them to leave. While it waits it logs the progress of the workers from time
to time; totals that do not fit a word are a fault of the host, and so is a fault of the winning
engine when it is asked for its assignment. A `Move` is a turn of one worker or a step of the host,
and every interleaving is a list of moves.
-/

namespace ClauseExchange

/-- Where the host stands. -/
inductive Host
  /-- Waiting for notices, with the number received. -/
  | waiting (received : Nat)
  /-- Waiting for the workers to leave. -/
  | joining
  /-- A rule was broken while the progress was logged. -/
  | panicked (fault : Fault)
  deriving DecidableEq, Repr

/-- A portfolio in the course of its run. -/
structure Portfolio (σ : Type) extends Exchange σ where
  host : Host := .waiting 0

/-- The next event of a portfolio. -/
inductive Move
  /-- A worker takes a turn. -/
  | worker (id : Nat)
  /-- The host receives a notice. -/
  | receive
  /-- The host has waited for a while in vain; it looks whether any worker runs, and logs the
  progress if one does. -/
  | lookUp
  /-- The host finds that there is no notice left and that no worker can send another. -/
  | hangUp
  deriving DecidableEq, Repr

namespace Portfolio

variable {σ : Type}

/-- The host once it has received a number of notices. -/
def hostAfter (workers received : Nat) : Host :=
  if received < workers then .waiting received else .joining

/-- Starts a portfolio with the given engines, one for every worker of the configuration. -/
def launch (engines : List σ) (config : Config) (sensors : Sensors) :
    Except Failure (Portfolio σ) := do
  config.validate.mapError .refused
  if engines.length ≠ config.numWorkers then
    throw (.refused (Config.Defect.engineCount engines.length config.numWorkers).error)
  let coordinator ← Coordinator.create config.numWorkers config.margin config.periodLength
  let runners ← engines.zipIdx.mapM fun (engine, id) => do
    let worker ← (Worker.create id coordinator config).mapError .fault
    return ({ worker, engine } : Runner σ)
  return {
    shared := {
      coordinator
      channel := .create config.numWorkers
      sensors := { sensors with watches := Array.replicate config.numWorkers {} } }
    runners := runners.toArray
    host := hostAfter config.numWorkers 0 }

/-- The state after one move; a move that is not possible changes nothing. -/
def move (E : Engine σ) (p : Portfolio σ) : Move → Portfolio σ
  | .worker id => { p with toExchange := p.toExchange.turn E id }
  | .receive =>
    match p.host, p.shared.channel.receive with
    | .waiting received, some (_, channel) =>
      { p with
        shared := { p.shared with channel }
        host := hostAfter p.runners.size (received + 1) }
    | _, _ => p
  | .lookUp =>
    match p.host with
    | .waiting _ =>
      if p.shared.coordinator.live? = some 0 then { p with host := .joining }
      else
        match p.shared.channel.totals with
        | .error f => { p with host := .panicked f }
        | .ok _ => p
    | _ => p
  | .hangUp =>
    match p.host, p.shared.channel.receive with
    | .waiting _, none => if p.isOver then { p with host := .joining } else p
    | _, _ => p

/-- The statistics that a worker handed in; none if it panicked or still runs. -/
def handedIn (r : Runner σ) : Option WorkerStatistics :=
  match r.control with
  | .finished statistics => some statistics
  | _ => none

/-- The least number of a worker that panicked. -/
def firstPanicked (p : Portfolio σ) : Option Nat :=
  p.runners.toList.findIdx? fun r =>
    match r.control with
    | .panicked _ => true
    | _ => false

/-- The engine whose assignment is asked for: that of the winner, if the winner is conclusive. -/
def winningEngine? (p : Portfolio σ) : Option σ := do
  let winner ← p.shared.coordinator.winner?
  guard winner.verdict.isConclusive
  let r ← p.runners[winner.signature.worker]?
  return r.engine

/-- The assignment of the winning engine. -/
def winningModel (E : Engine σ) (p : Portfolio σ) : Except Fault (Option (List Literal)) :=
  match p.winningEngine? with
  | none => .ok none
  | some e => E.model e

/-- The result of a portfolio whose workers have all left. -/
def collect (E : Engine σ) (p : Portfolio σ) (elapsed : Duration) :
    Except Failure PortfolioResult :=
  match p.firstPanicked with
  | some worker => .error (.refused (.workerPanicked worker))
  | none =>
    match p.winningModel E with
    | .error f => .error (.fault f)
    | .ok model? =>
      .ok {
        verdict := p.shared.coordinator.verdict
        winner? := p.shared.coordinator.winner?.map (·.signature)
        model?
        statistics := p.runners.toList.filterMap handedIn
        elapsed }

/-- How the run ends: with the result, once the host waits for the workers to leave and all have
left, or with a fault of the host. -/
def outcome? (E : Engine σ) (p : Portfolio σ) (elapsed : Duration) :
    Option (Except Failure PortfolioResult) :=
  match p.host with
  | .waiting _ => none
  | .joining => if p.isOver then some (p.collect E elapsed) else none
  | .panicked f => some (.error (.fault f))

/-- The portfolio after its workers have taken `quantum` turns at a time, in up to `rounds`
rounds. -/
def rotate (E : Engine σ) (quantum rounds : Nat) (p : Portfolio σ) : Portfolio σ :=
  { p with toExchange := p.toExchange.rotate E quantum rounds }

/-- Lets the host receive all notices and look whether any worker still runs. -/
def attend (E : Engine σ) (p : Portfolio σ) : Portfolio σ :=
  let p := (List.replicate p.runners.size Move.receive).foldl (move E) p
  p.move E .lookUp

end Portfolio

end ClauseExchange
