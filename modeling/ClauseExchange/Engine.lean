import ClauseExchange.Clause
import ClauseExchange.Statistics

/-!
# Engines

A sequential search engine is a deterministic state machine. In every state it makes one request of
its worker, and the reply takes it to its next state. Some requests make the worker call back into
the engine: to read its counters, to adjust which clauses it exports, or to hand it the clauses
that other workers sent.

`Engine.sum` combines engines of two kinds into one.
-/

namespace ClauseExchange

/-- The outcome of applying imported clauses. -/
inductive ApplyOutcome
  | applied
  /-- The clauses contradict what the engine has fixed. -/
  | conflict
  deriving DecidableEq, Repr

/-- What an engine can see of its worker. -/
structure WorkerView where
  /-- The number of the worker. -/
  worker : Nat
  /-- The worker's period. -/
  period : Nat
  /-- The length of that period. -/
  periodLength : Nat
  /-- Whether the worker has told the engine to stop. -/
  stopped : Bool
  /-- Whether the work of the period is used up. -/
  atBoundary : Bool
  /-- The imported clauses not yet taken. -/
  pending : Batch
  /-- The worker's counters. -/
  statistics : WorkerStatistics
  deriving DecidableEq, Repr

/-- What an engine asks of its worker. -/
inductive Request
  /-- To see the worker. -/
  | observe
  /-- To count units of work. -/
  | addWork (units : Nat)
  /-- To stage a learnt clause for export. -/
  | exportCandidate (clause : Clause) (quality : Nat)
  /-- To end the period if its work is used up, and to learn whether to go on. -/
  | checkPeriod
  /-- To learn whether imported clauses have to be applied now. -/
  | shouldApply
  /-- To take the imported clauses. -/
  | takeImported
  /-- To have the imported clauses applied. -/
  | applyImported
  /-- To end the search with a verdict. -/
  | conclude (verdict : Verdict)
  /-- To give up with a fault. -/
  | fail (fault : Fault)
  deriving DecidableEq, Repr

/-- What a worker answers. -/
inductive Reply
  /-- The request was carried out. -/
  | done
  /-- The answer to a question. -/
  | answer (yes : Bool)
  /-- The view that was asked for. -/
  | seen (view : WorkerView)
  /-- The clauses that were taken. -/
  | taken (batch : Batch)
  /-- The outcome of applying clauses. -/
  | applied (outcome : ApplyOutcome)
  deriving DecidableEq, Repr

/-- An engine with states in `σ`. A callback that fails leaves the state it has reached. -/
structure Engine (σ : Type) where
  /-- What the engine asks of its worker. -/
  request : σ → Request
  /-- The state after a reply. -/
  resume : σ → Reply → σ
  /-- Applies imported clauses. -/
  apply : σ → Batch → Except Fault ApplyOutcome × σ
  /-- The counters of the search. -/
  statistics : σ → Except Fault EngineStatistics
  /-- Exports more clauses. -/
  relax : σ → Except Fault Unit × σ := fun s => (.ok (), s)
  /-- Exports fewer clauses. -/
  tighten : σ → Except Fault Unit × σ := fun s => (.ok (), s)
  /-- The quality up to which clauses are exported. -/
  exportThreshold : σ → Except Fault Nat := fun _ => .ok 0
  /-- The assignment found. -/
  model : σ → Except Fault (Option (List Literal)) := fun _ => .ok none

namespace Engine

variable {σ τ : Type}

/-- An engine of one of two kinds. -/
def sum (E : Engine σ) (F : Engine τ) : Engine (σ ⊕ τ) where
  request
    | .inl s => E.request s
    | .inr t => F.request t
  resume
    | .inl s, r => .inl (E.resume s r)
    | .inr t, r => .inr (F.resume t r)
  apply
    | .inl s, b => let (r, s) := E.apply s b; (r, .inl s)
    | .inr t, b => let (r, t) := F.apply t b; (r, .inr t)
  statistics
    | .inl s => E.statistics s
    | .inr t => F.statistics t
  relax
    | .inl s => let (r, s) := E.relax s; (r, .inl s)
    | .inr t => let (r, t) := F.relax t; (r, .inr t)
  tighten
    | .inl s => let (r, s) := E.tighten s; (r, .inl s)
    | .inr t => let (r, t) := F.tighten t; (r, .inr t)
  exportThreshold
    | .inl s => E.exportThreshold s
    | .inr t => F.exportThreshold t
  model
    | .inl s => E.model s
    | .inr t => F.model t

end Engine

end ClauseExchange
