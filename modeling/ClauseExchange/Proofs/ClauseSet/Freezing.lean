import ClauseExchange.Proofs.Outbox.Accounts
import ClauseExchange.Proofs.Mailbox.Operations

/-!
# Append, then freeze

A clause set is used by calls in any order, also by calls that break its rules and fail. What the
set shows after some calls can be read off the calls alone: the clauses appended before the first
completion (`ClauseSet.appendedBefore`), the candidate of that completion
(`ClauseSet.firstCompletion?`) and the number of readers (`ClauseSet.acknowledgments`).

* `ClauseSet.after_opened` is the state of a set after any calls.
* `StagedSet` holds the clauses in two places, a staging area and a frozen part, and counts the
  literals in each. A completion empties the staging area before it finds out whether the set was
  complete already. `StagedSet.perform_staged` compares the two kinds of set on one call.
* `ClauseSet.append_then_freeze` puts the law of a clause set together.
-/

namespace ClauseExchange

namespace ClauseSet

/-! ## Calls -/

/-- A question about a clause set. -/
inductive Question
  /-- Whose clauses these are. -/
  | producer
  /-- In which period they were produced. -/
  | period
  /-- Whether the set is complete. -/
  | isCompleted
  /-- The frozen clauses. -/
  | clauses
  /-- The candidate recorded at completion. -/
  | nextLength
  /-- The number of clauses. -/
  | numClauses
  /-- The number of literals. -/
  | numLiterals
  /-- The number of acknowledgments. -/
  | consumed
  deriving DecidableEq

/-- A call on a clause set. -/
inductive Call
  /-- To append a clause. -/
  | append (clause : Clause)
  /-- To complete the set with a candidate. -/
  | complete (nextLength : Nat)
  /-- To acknowledge the set for a consumer. -/
  | acknowledge (consumer : Nat)
  /-- To ask a question. -/
  | ask (question : Question)
  deriving DecidableEq

/-- The answer to a call that does not fail. -/
inductive Answer
  /-- The call was carried out. -/
  | done
  /-- A number. -/
  | count (n : Nat)
  /-- Yes or no. -/
  | decision (yes : Bool)
  /-- The clauses, if they can be seen. -/
  | clauses (clauses? : Option (List Clause))
  /-- The candidate, if there is one. -/
  | candidate (nextLength? : Option Nat)
  deriving DecidableEq

/-- The answer to a question. -/
def reply (s : ClauseSet) : Question → Answer
  | .producer => .count s.producer
  | .period => .count s.period
  | .isCompleted => .decision s.isCompleted
  | .clauses => .clauses s.clauses?
  | .nextLength => .candidate s.nextLength?
  | .numClauses => .count s.numClauses
  | .numLiterals => .count s.numLiterals
  | .consumed => .count s.consumed

/-- The outcome of an operation on a set, which stays as it is if the operation fails. -/
def settle (s : ClauseSet) : Except Fault ClauseSet → Except Fault Answer × ClauseSet
  | .ok s' => (.ok .done, s')
  | .error f => (.error f, s)

/-- The answer to a call, and the set after it. -/
def perform (s : ClauseSet) : Call → Except Fault Answer × ClauseSet
  | .append clause => s.settle (s.append clause)
  | .complete nextLength => s.settle (s.complete nextLength)
  | .acknowledge consumer => s.settle (s.acknowledge consumer)
  | .ask question => (.ok (s.reply question), s)

section Runs

variable {σ : Type} (perform : σ → Call → Except Fault Answer × σ)

/-- The state after some calls, none of which stops the others. -/
def after (s : σ) (calls : List Call) : σ := calls.foldl (fun s call => (perform s call).2) s

/-- The answers that the calls get. -/
def answers : σ → List Call → List (Except Fault Answer)
  | _, [] => []
  | s, call :: calls => (perform s call).1 :: answers (perform s call).2 calls

@[simp] theorem after_nil (s : σ) : after perform s [] = s := rfl

@[simp] theorem after_cons (s : σ) (call : Call) (calls : List Call) :
    after perform s (call :: calls) = after perform (perform s call).2 calls := rfl

theorem after_append (s : σ) (calls later : List Call) :
    after perform s (calls ++ later) = after perform (after perform s calls) later :=
  List.foldl_append

theorem after_concat (s : σ) (calls : List Call) (call : Call) :
    after perform s (calls ++ [call]) = (perform (after perform s calls) call).2 :=
  after_append perform s calls [call]

end Runs

/-! ## What the calls say by themselves -/

/-- The candidate that a call brings, if it is a completion. -/
def Call.nextLength? : Call → Option Nat
  | complete nextLength => some nextLength
  | _ => none

/-- Whether a call acknowledges a set for another worker than its producer. -/
def Call.isReading (producer : Nat) : Call → Bool
  | acknowledge consumer => consumer != producer
  | _ => false

/-- The candidate of the first completion. -/
def firstCompletion? (calls : List Call) : Option Nat := calls.findSome? Call.nextLength?

/-- The clauses of the appends that come before the first completion. -/
def appendedBefore : List Call → List Clause
  | [] => []
  | .append clause :: calls => clause :: appendedBefore calls
  | .complete _ :: _ => []
  | .acknowledge _ :: calls | .ask _ :: calls => appendedBefore calls

/-- The number of acknowledgments by others than the producer. -/
def acknowledgments (producer : Nat) (calls : List Call) : Nat :=
  calls.countP (Call.isReading producer)

/-- The clauses of those appends that were answered without a fault. -/
def accepted : List Call → List (Except Fault Answer) → List Clause
  | .append clause :: calls, .ok _ :: answers => clause :: accepted calls answers
  | _ :: calls, _ :: answers => accepted calls answers
  | _, _ => []

theorem firstCompletion?_append (calls later : List Call) :
    firstCompletion? (calls ++ later) = (firstCompletion? calls).or (firstCompletion? later) :=
  List.findSome?_append

theorem firstCompletion?_singleton (call : Call) : firstCompletion? [call] = call.nextLength? := by
  cases call <;> rfl

theorem acknowledgments_append (producer : Nat) (calls later : List Call) :
    acknowledgments producer (calls ++ later) =
      acknowledgments producer calls + acknowledgments producer later := List.countP_append

theorem acknowledgments_singleton (producer : Nat) (call : Call) :
    acknowledgments producer [call] = (call.isReading producer).toNat := by
  cases h : call.isReading producer <;> simp [acknowledgments, h]

/-- What is appended after the first completion does not count. -/
theorem appendedBefore_append (calls later : List Call) :
    appendedBefore (calls ++ later) = appendedBefore calls ++
      if (firstCompletion? calls).isSome then [] else appendedBefore later := by
  induction calls with
  | nil => rfl
  | cons call calls ih =>
    cases call with
    | complete n => rfl
    | append c => exact congrArg (c :: ·) ih
    | acknowledge w | ask q => exact ih

/-! ## One call -/

variable {s : ClauseSet} {producer period : Nat} {calls : List Call}

/-- The set that some calls make of an empty one. -/
def ofCalls (producer period : Nat) (calls : List Call) : ClauseSet where
  producer := producer
  period := period
  appended := (appendedBefore calls).toArray
  nextLength? := firstCompletion? calls
  consumed := acknowledgments producer calls

theorem isCompleted_ofCalls (producer period : Nat) (calls : List Call) :
    (ofCalls producer period calls).isCompleted = (firstCompletion? calls).isSome := rfl

theorem append_of_isCompleted (h : s.isCompleted = true) (c : Clause) :
    s.append c = .error (.appendToCompleted s.producer s.period) := if_pos h

theorem append_of_open (h : s.isCompleted = false) (c : Clause) : s.append c = .ok (s.push c) :=
  if_neg (by rw [h]; exact Bool.false_ne_true)

theorem complete_of_open (h : s.isCompleted = false) (n : Nat) :
    s.complete n = .ok { s with nextLength? := some n } :=
  complete_eq_ok_iff.2 ⟨h, rfl⟩

theorem acknowledge_of_eq {w : Nat} (h : w = s.producer) :
    s.acknowledge w = .error (.ownSetConsumed s.producer) := if_pos h

theorem acknowledge_of_ne {w : Nat} (h : w ≠ s.producer) :
    s.acknowledge w = .ok s.countReader := if_neg h

theorem ofCalls_concat (producer period : Nat) (calls : List Call) (call : Call) :
    ofCalls producer period (calls ++ [call]) =
      { producer, period
        appended := (appendedBefore calls ++
          if (firstCompletion? calls).isSome then [] else appendedBefore [call]).toArray
        nextLength? := (firstCompletion? calls).or call.nextLength?
        consumed := acknowledgments producer calls + (call.isReading producer).toNat } := by
  rw [ofCalls, appendedBefore_append, firstCompletion?_append, acknowledgments_append,
    firstCompletion?_singleton, acknowledgments_singleton]

/-- One more call makes of a set what it makes of the calls. -/
theorem perform_ofCalls (producer period : Nat) (calls : List Call) (call : Call) :
    ((ofCalls producer period calls).perform call).2 = ofCalls producer period (calls ++ [call]) := by
  rw [ofCalls_concat]
  cases call with
  | append c =>
    cases hfirst : firstCompletion? calls with
    | some n =>
      rw [perform, append_of_isCompleted (by rw [isCompleted_ofCalls, hfirst]; rfl)]
      simp [settle, ofCalls, hfirst, Call.isReading]
    | none =>
      rw [perform, append_of_open (by rw [isCompleted_ofCalls, hfirst]; rfl)]
      simp [settle, ofCalls, push, hfirst, Call.nextLength?, appendedBefore, Call.isReading]
  | complete n' =>
    cases hfirst : firstCompletion? calls with
    | some n =>
      rw [perform, complete_of_isCompleted (by rw [isCompleted_ofCalls, hfirst]; rfl)]
      simp [settle, ofCalls, hfirst, Call.isReading]
    | none =>
      rw [perform, complete_of_open (by rw [isCompleted_ofCalls, hfirst]; rfl)]
      simp [settle, ofCalls, Call.nextLength?, appendedBefore, Call.isReading]
  | acknowledge w =>
    by_cases hw : w = producer
    · rw [perform, acknowledge_of_eq (s := ofCalls producer period calls) hw]
      simp [settle, ofCalls, appendedBefore, Call.nextLength?, Call.isReading, hw]
    · rw [perform, acknowledge_of_ne (s := ofCalls producer period calls) hw]
      have hne : (w != producer) = true := bne_iff_ne.2 hw
      simp [settle, ofCalls, countReader, appendedBefore, Call.nextLength?, Call.isReading, hne]
  | ask q => simp [perform, ofCalls, appendedBefore, Call.nextLength?, Call.isReading]

/-- The state of a set after any calls, failing ones included. -/
theorem after_opened (producer period : Nat) (calls : List Call) :
    after perform (opened producer period) calls = ofCalls producer period calls := by
  induction calls using List.reverseRecOn with
  | nil => rfl
  | append_singleton calls call ih => rw [after_concat, ih, perform_ofCalls]

/-- Which calls fail on a set, and how. -/
theorem perform_eq_error_iff {call : Call} {f : Fault} : (s.perform call).1 = .error f ↔
    (s.isCompleted = true ∧ ((∃ c, call = .append c) ∧ f = .appendToCompleted s.producer s.period ∨
      (∃ n, call = .complete n) ∧ f = .completedTwice s.producer s.period)) ∨
    call = .acknowledge s.producer ∧ f = .ownSetConsumed s.producer := by
  cases call with
  | append c =>
    cases hdone : s.isCompleted with
    | true => rw [perform, append_of_isCompleted hdone]; simp [settle, eq_comm]
    | false => rw [perform, append_of_open hdone]; simp [settle]
  | complete n =>
    cases hdone : s.isCompleted with
    | true => rw [perform, complete_of_isCompleted hdone]; simp [settle, eq_comm]
    | false => rw [perform, complete_of_open hdone]; simp [settle]
  | acknowledge w =>
    by_cases hw : w = s.producer
    · rw [perform, acknowledge_of_eq hw]
      simpa [settle, hw] using eq_comm
    · rw [perform, acknowledge_of_ne hw]; simp [settle, hw]
  | ask q => simp [perform]

/-- A call that fails changes nothing. -/
theorem perform_of_error {call : Call} {f : Fault} (h : (s.perform call).1 = .error f) :
    (s.perform call).2 = s := by
  have hsettle : ∀ r : Except Fault ClauseSet, (s.settle r).1 = .error f → (s.settle r).2 = s := by
    intro r hr
    cases r with
    | ok s' => cases hr
    | error f => rfl
  cases call with
  | append c => exact hsettle _ h
  | complete n => exact hsettle _ h
  | acknowledge w => exact hsettle _ h
  | ask q => rfl

/-- The appends that succeed are those before the first completion. -/
theorem accepted_answers (s : ClauseSet) (calls : List Call) :
    accepted calls (answers perform s calls) = if s.isCompleted then [] else appendedBefore calls := by
  induction calls generalizing s with
  | nil => exact (ite_self []).symm
  | cons call calls ih =>
    rw [answers]
    cases call with
    | append c =>
      cases hdone : s.isCompleted with
      | true =>
        rw [perform, append_of_isCompleted hdone]
        simp [settle, accepted, ih, hdone]
      | false =>
        have hpush : (s.push c).isCompleted = false := hdone
        rw [perform, append_of_open hdone]
        simp [settle, accepted, appendedBefore, ih, hpush]
    | complete n =>
      cases hdone : s.isCompleted with
      | true =>
        rw [perform, complete_of_isCompleted hdone]
        simp [settle, accepted, ih, hdone]
      | false =>
        rw [perform, complete_of_open hdone]
        simp [settle, accepted, appendedBefore, ih, isCompleted]
    | acknowledge w =>
      by_cases hw : w = s.producer
      · rw [perform, acknowledge_of_eq hw]
        simp [settle, accepted, appendedBefore, ih]
      · have hread : s.countReader.isCompleted = s.isCompleted := rfl
        rw [perform, acknowledge_of_ne hw]
        simp [settle, accepted, appendedBefore, ih, hread]
    | ask q => simp [perform, accepted, appendedBefore, ih]

end ClauseSet

/-! ## Two places -/

/-- Some clauses, and the number of literals in them. -/
structure Stock where
  /-- The clauses. -/
  clauses : Array Clause := #[]
  /-- The number of literals. -/
  numLiterals : Nat := 0
  deriving DecidableEq

/-- Some clauses with one more. -/
def Stock.push (stock : Stock) (c : Clause) : Stock where
  clauses := stock.clauses.push c
  numLiterals := stock.numLiterals + c.length

/-- A clause set that moves its clauses from one place to another when it is completed. -/
structure StagedSet where
  /-- The worker whose clauses these are. -/
  producer : Nat
  /-- The period in which they were produced. -/
  period : Nat
  /-- The clauses that are still to be frozen. -/
  staging : Stock := {}
  /-- The frozen clauses and the candidate recorded with them. -/
  frozen? : Option (Stock × Nat) := none
  /-- The number of acknowledgments. -/
  consumed : Nat := 0
  deriving DecidableEq

namespace StagedSet

open ClauseSet (Call Answer Question after answers)

/-- A set with nothing in either place. -/
def opened (producer period : Nat) : StagedSet where
  producer := producer
  period := period

/-- The frozen part if there is one, else what is still to be frozen. -/
def stock (t : StagedSet) : Stock := (t.frozen?.map (·.1)).getD t.staging

/-- The answer to a question. -/
def reply (t : StagedSet) : Question → Answer
  | .producer => .count t.producer
  | .period => .count t.period
  | .isCompleted => .decision t.frozen?.isSome
  | .clauses => .clauses (t.frozen?.map (·.1.clauses.toList))
  | .nextLength => .candidate (t.frozen?.map (·.2))
  | .numClauses => .count t.stock.clauses.size
  | .numLiterals => .count t.stock.numLiterals
  | .consumed => .count t.consumed

/-- Adds a clause to the staging area, unless something is frozen. -/
def append (t : StagedSet) (c : Clause) : Except Fault Answer × StagedSet :=
  if t.frozen?.isSome then (.error (.appendToCompleted t.producer t.period), t)
  else (.ok .done, { t with staging := t.staging.push c })

/-- Takes everything out of the staging area, and then freezes it unless something is frozen. -/
def complete (t : StagedSet) (nextLength : Nat) : Except Fault Answer × StagedSet :=
  let taken := t.staging
  let t := { t with staging := {} }
  match t.frozen? with
  | some _ => (.error (.completedTwice t.producer t.period), t)
  | none => (.ok .done, { t with frozen? := some (taken, nextLength) })

/-- Counts that `consumer`, who is not the producer, has read the set. -/
def acknowledge (t : StagedSet) (consumer : Nat) : Except Fault Answer × StagedSet :=
  if consumer = t.producer then (.error (.ownSetConsumed t.producer), t)
  else (.ok .done, { t with consumed := t.consumed + 1 })

/-- The answer to a call, and the set after it. A call that fails may leave something behind. -/
def perform (t : StagedSet) : Call → Except Fault Answer × StagedSet
  | .append clause => t.append clause
  | .complete nextLength => t.complete nextLength
  | .acknowledge consumer => t.acknowledge consumer
  | .ask question => (.ok (t.reply question), t)

end StagedSet

namespace ClauseSet

variable {s : ClauseSet}

/-- All clauses of a set, and the number of literals in them. -/
def contained (s : ClauseSet) : Stock := ⟨s.appended, s.numLiterals⟩

/-- How a clause set is held in two places. -/
def staged (s : ClauseSet) : StagedSet where
  producer := s.producer
  period := s.period
  staging := if s.isCompleted then {} else s.contained
  frozen? := s.nextLength?.map (s.contained, ·)
  consumed := s.consumed

theorem contained_push (s : ClauseSet) (c : Clause) : (s.push c).contained = s.contained.push c := by
  simp [contained, Stock.push, push, numLiterals]

theorem isSome_frozen?_staged (s : ClauseSet) : s.staged.frozen?.isSome = s.isCompleted :=
  Option.isSome_map

/-- Nothing gets lost or doubled when the clauses change place. -/
theorem stock_staged (s : ClauseSet) : s.staged.stock = s.contained := by
  cases h : s.nextLength? <;> simp [StagedSet.stock, staged, isCompleted, h]

/-- Both kinds of set give the same answer to a call, and show the same after it. -/
theorem perform_staged (s : ClauseSet) (call : Call) :
    s.staged.perform call = ((s.perform call).1, (s.perform call).2.staged) := by
  cases call with
  | append c =>
    rw [StagedSet.perform, StagedSet.append, isSome_frozen?_staged, perform]
    cases hdone : s.isCompleted with
    | true =>
      rw [append_of_isCompleted hdone]
      rfl
    | false =>
      have hnone : s.nextLength? = none := by simpa [isCompleted] using hdone
      have hpush : (s.push c).isCompleted = false := hdone
      have hnone' : (s.push c).nextLength? = none := hnone
      rw [append_of_open hdone]
      simp only [settle, staged, hdone, hpush, hnone, hnone', contained_push]
      rfl
  | complete n =>
    rw [StagedSet.perform, StagedSet.complete, perform]
    cases hlength : s.nextLength? with
    | some n' =>
      have hdone : s.isCompleted = true := by rw [isCompleted, hlength]; rfl
      rw [complete_of_isCompleted hdone]
      simp [settle, staged, hdone, hlength]
    | none =>
      have hopen : s.isCompleted = false := by rw [isCompleted, hlength]; rfl
      rw [complete_of_open hopen]
      simp [settle, staged, hlength, isCompleted, contained, numLiterals]
  | acknowledge w =>
    rw [StagedSet.perform, StagedSet.acknowledge, perform]
    have hproducer : s.staged.producer = s.producer := rfl
    by_cases hw : w = s.producer
    · rw [hproducer, if_pos hw, acknowledge_of_eq hw]
      rfl
    · rw [hproducer, if_neg hw, acknowledge_of_ne hw]
      rfl
  | ask q =>
    have hstock := s.stock_staged
    have hreply : s.staged.reply q = s.reply q := by
      cases q with
      | isCompleted => exact congrArg Answer.decision s.isSome_frozen?_staged
      | clauses =>
        cases h : s.nextLength? <;>
          simp [StagedSet.reply, reply, staged, clauses?, isCompleted, contained, h]
      | nextLength => cases h : s.nextLength? <;> simp [StagedSet.reply, reply, staged, h]
      | numClauses => exact congrArg (fun t : Stock => Answer.count t.clauses.size) hstock
      | numLiterals => exact congrArg (fun t : Stock => Answer.count t.numLiterals) hstock
      | producer | period | consumed => rfl
    rw [StagedSet.perform, hreply]
    rfl

/-- Both kinds of set give the same answers to any calls, and show the same after them. -/
theorem answers_staged (s : ClauseSet) (calls : List Call) :
    answers StagedSet.perform s.staged calls = answers perform s calls ∧
      after StagedSet.perform s.staged calls = (after perform s calls).staged := by
  induction calls generalizing s with
  | nil => exact ⟨rfl, rfl⟩
  | cons call calls ih =>
    obtain ⟨hanswers, hafter⟩ := ih (s.perform call).2
    rw [answers, answers, after_cons, after_cons, perform_staged]
    exact ⟨congrArg _ hanswers, hafter⟩

/-! ## The law -/

/-- A clause set is a log that is appended to and then frozen, whatever calls are made on it and
whichever of them fail. Before the first completion it is not complete and shows no clauses and no
candidate. From then on it is complete and shows the clauses appended before, in order, and the
candidate of that completion, and no later call changes any of this. The counts of clauses and
literals are those of the appends that succeeded, before and after. Appending to a complete set,
completing it again and acknowledging one's own set fail, and nothing else does. A call that fails
changes nothing, also if the clauses are held in two places and a completion empties the one before
it looks into the other: such a set gives the same answers. -/
theorem append_then_freeze (producer period : Nat) (calls : List Call) :
    let s := after perform (opened producer period) calls
    let t := after StagedSet.perform (.opened producer period) calls
    let appended := accepted calls (answers perform (opened producer period) calls)
    (s.isCompleted = (firstCompletion? calls).isSome ∧
      s.clauses? = (firstCompletion? calls).map (fun _ => appendedBefore calls) ∧
      s.nextLength? = firstCompletion? calls) ∧
    (appended = appendedBefore calls ∧ s.numClauses = appended.length ∧
      s.numLiterals = totalLength appended ∧ s.consumed = acknowledgments producer calls) ∧
    (∀ later, s.isCompleted = true →
      let s' := after perform s later
      s'.isCompleted = true ∧ s'.clauses? = s.clauses? ∧ s'.nextLength? = s.nextLength? ∧
        s'.numClauses = s.numClauses ∧ s'.numLiterals = s.numLiterals) ∧
    (∀ call f, (s.perform call).1 = .error f ↔
      (s.isCompleted = true ∧ ((∃ c, call = .append c) ∧ f = .appendToCompleted producer period ∨
        (∃ n, call = .complete n) ∧ f = .completedTwice producer period)) ∨
      call = .acknowledge producer ∧ f = .ownSetConsumed producer) ∧
    (∀ call f, (s.perform call).1 = .error f → (s.perform call).2 = s ∧ (t.perform call).2 = t) ∧
    answers StagedSet.perform (.opened producer period) calls =
      answers perform (opened producer period) calls := by
  intro s t appended
  have hs : s = ofCalls producer period calls := after_opened producer period calls
  have happended : appended = appendedBefore calls := accepted_answers (opened producer period) calls
  obtain ⟨hanswers, ht⟩ := answers_staged (opened producer period) calls
  refine ⟨⟨?_, ?_, ?_⟩, ⟨happended, ?_, ?_, ?_⟩, fun later hdone => ?_, fun call f => ?_,
    fun call f hcall => ?_, hanswers⟩
  · rw [hs, isCompleted_ofCalls]
  · rw [hs, clauses?, isCompleted_ofCalls]
    cases firstCompletion? calls <;> rfl
  · rw [hs]
    rfl
  · rw [hs, happended]
    exact List.size_toArray
  · rw [hs, happended, numLiterals_eq]
    rfl
  · rw [hs]
    rfl
  · -- a later call finds the first completion and the clauses before it as they were
    have hfirst : (firstCompletion? calls).isSome = true := by rwa [hs] at hdone
    have hlater : firstCompletion? (calls ++ later) = firstCompletion? calls := by
      rw [firstCompletion?_append, Option.or_of_isSome hfirst]
    have hclauses : appendedBefore (calls ++ later) = appendedBefore calls := by
      rw [appendedBefore_append, if_pos hfirst, List.append_nil]
    have hs' : after perform s later = { s with consumed := (after perform s later).consumed } := by
      rw [hs, ← after_opened, ← after_append, after_opened, after_opened]
      simp only [ofCalls, hlater, hclauses]
    simp only
    rw [hs']
    exact ⟨hdone, rfl, rfl, rfl, rfl⟩
  · rw [hs]
    exact perform_eq_error_iff
  · refine ⟨perform_of_error hcall, ?_⟩
    have ht' : t = s.staged := ht
    rw [ht', perform_staged, perform_of_error hcall]

/-- The producer acknowledges its own set, appends to it when it is complete and completes it again,
all in vain. The set then shows what was appended in time. -/
theorem append_then_freeze_misused :
    let calls : List Call := [.append ⟨[1, 2], by decide⟩, .acknowledge 1, .ask .clauses,
      .append ⟨[-3], by decide⟩, .acknowledge 0, .complete 5000, .append ⟨[4], by decide⟩,
      .complete 7, .acknowledge 2, .ask .numLiterals]
    let s := after perform (opened 1 4) calls
    let t := after StagedSet.perform (.opened 1 4) calls
    s.clauses? = some [⟨[1, 2], by decide⟩, ⟨[-3], by decide⟩] ∧ s.nextLength? = some 5000 ∧
      s.numLiterals = 3 ∧ s.consumed = 2 ∧ s.isCompleted = true ∧
      (after perform s [.complete 8, .append ⟨[5], by decide⟩]).clauses? = s.clauses? ∧
      (s.perform (.complete 9)).1 = .error (.completedTwice 1 4) ∧ (t.perform (.complete 9)).2 = t := by
  intro calls s t
  obtain ⟨⟨hdone, hclauses, hlength⟩, ⟨happended, -, hliterals, hconsumed⟩, hlater, hfault, hkept, -⟩ :=
    append_then_freeze 1 4 calls
  have hcompleted : s.isCompleted = true := hdone.trans (by decide)
  have htwice : (s.perform (.complete 9)).1 = .error (.completedTwice 1 4) :=
    (hfault _ _).2 (.inl ⟨hcompleted, .inr ⟨⟨9, rfl⟩, rfl⟩⟩)
  exact ⟨hclauses.trans (by decide), hlength.trans (by decide), hliterals.trans (by rw [happended]; decide),
    hconsumed.trans (by decide), hcompleted, (hlater _ hcompleted).2.1, htwice, (hkept _ _ htwice).2⟩

end ClauseSet

end ClauseExchange
