import ClauseExchange.Proofs.Mailbox.Operations
import Mathlib.Algebra.Group.Nat.Defs

/-!
# Nobody notices that sets leave

A session is a sequence of calls on one mailbox, by its owner and by consumers in any order.
`Mailbox.extend` advances a mailbox as `Mailbox.advance` does but lets no set leave, so a session
can be held twice: on a mailbox that lets its sets leave, and on one that keeps them all.

* `Mailbox.Admissible` says which sessions can happen, and `Admissible.isLog` that a mailbox is a
  log after each of them.
* `IsLog.perform_keepAll` compares one call on the two mailboxes.
* `Mailbox.leaving_unnoticed` says that all calls of a session get the same answers.
-/

namespace ClauseExchange

namespace Mailbox

/-- A call on a mailbox. -/
inductive Call
  /-- To see the newest set. -/
  | tail
  /-- To append a clause to the newest set. -/
  | append (clause : Clause)
  /-- To complete the newest set, and to see the next one. -/
  | advance (nextLength : Nat)
  /-- To complete the newest set, which stays the newest. -/
  | close (nextLength : Nat)
  /-- To learn whether the owner has stopped producing. -/
  | isClosed
  /-- To see the next set that a consumer has to read, unless it is newer than `period`. -/
  | fetch (consumer period : Nat)
  /-- To acknowledge the set of a period for a consumer. -/
  | acknowledge (consumer period : Nat)
  deriving DecidableEq

/-- Whether a call advances the mailbox. -/
def Call.isAdvance : Call → Bool
  | advance _ => true
  | _ => false

/-- The answer to a call that does not fail. -/
inductive Answer
  /-- The call was carried out. -/
  | done
  /-- The answer to a question. -/
  | answer (yes : Bool)
  /-- The set that the caller sees, with all that it holds. -/
  | seen (set? : Option ClauseSet)
  deriving DecidableEq

/-- Completes the tail and opens the next set, and lets no set leave. -/
def extend (m : Mailbox) (nextLength : Nat) : Except Fault Nat × Mailbox :=
  match m.tail.complete nextLength with
  | .error _ => (.error (.advanceAfterClose m.owner), m)
  | .ok full =>
    match Word.add full.period 1 with
    | .error f => (.error f, m)
    | .ok next => (.ok next, { m with past := m.past.push full, tail := .opened m.owner next })

/-- The answer to a call on a mailbox that advances in the given way, and the mailbox after it. A
call that fails may leave something behind. -/
def perform (advance : Mailbox → Nat → Except Fault Nat × Mailbox) (m : Mailbox) :
    Call → Except Fault Answer × Mailbox
  | .tail => (.ok (.seen (some m.tail)), m)
  | .append clause => let (r, m) := m.append clause; (r.map fun _ => .done, m)
  | .advance nextLength => let (r, m) := advance m nextLength; (r.map fun _ => .seen (some m.tail), m)
  | .close nextLength => (.ok .done, m.close nextLength)
  | .isClosed => (.ok (.answer m.isClosed), m)
  | .fetch consumer period => ((m.fetch consumer period).map .seen, m)
  | .acknowledge consumer period =>
    let (r, m) := m.acknowledge consumer period; (r.map fun _ => .done, m)

/-- The mailbox after a session. -/
def after (advance : Mailbox → Nat → Except Fault Nat × Mailbox) (m : Mailbox)
    (calls : List Call) : Mailbox := calls.foldl (fun m call => (m.perform advance call).2) m

/-- The answers that the calls of a session get. -/
def answers (advance : Mailbox → Nat → Except Fault Nat × Mailbox) :
    Mailbox → List Call → List (Except Fault Answer)
  | _, [] => []
  | m, call :: calls =>
    (m.perform advance call).1 :: answers advance (m.perform advance call).2 calls

/-- Whether the set that a call names, if it names one, is a set of the mailbox, retained or not. -/
def Call.namesSetOf (m : Mailbox) : Call → Bool
  | acknowledge _ period => (m.set? period).isSome
  | _ => true

/-- A session that can happen: whatever is acknowledged is a set of the mailbox at that time, and
the mailbox is advanced less than `2 ^ 63` times. -/
structure Admissible (m : Mailbox) (calls : List Call) : Prop where
  names : ∀ (i : Nat) (hi : i < calls.length),
    calls[i].namesSetOf (m.after advance (calls.take i)) = true
  advances_lt : calls.countP Call.isAdvance < 2 ^ 63

variable {m : Mailbox} {owner workers window : Nat} {call : Call} {calls : List Call}

/-! ## Parts of a session -/

@[simp] theorem after_nil (advance : Mailbox → Nat → Except Fault Nat × Mailbox) (m : Mailbox) :
    m.after advance [] = m := rfl

theorem after_concat (advance : Mailbox → Nat → Except Fault Nat × Mailbox) (m : Mailbox)
    (calls : List Call) (call : Call) :
    m.after advance (calls ++ [call]) = ((m.after advance calls).perform advance call).2 := by
  rw [after, List.foldl_append]
  rfl

theorem answers_concat (advance : Mailbox → Nat → Except Fault Nat × Mailbox) (m : Mailbox)
    (calls : List Call) (call : Call) : m.answers advance (calls ++ [call]) =
      m.answers advance calls ++ [((m.after advance calls).perform advance call).1] := by
  induction calls generalizing m with
  | nil => rfl
  | cons first calls ih =>
    rw [List.cons_append, answers, ih, answers, List.cons_append]
    rfl

theorem Admissible.of_append {calls' : List Call} (h : m.Admissible (calls ++ calls')) :
    m.Admissible calls where
  names i hi := by
    have := h.names i (by rw [List.length_append]; omega)
    rwa [List.getElem_append_left hi, List.take_append_of_le_length hi.le] at this
  advances_lt := by
    have := h.advances_lt
    rw [List.countP_append] at this
    omega

/-- The last call of a session names a set of the mailbox that it finds. -/
theorem Admissible.names_last (h : m.Admissible (calls ++ [call])) :
    call.namesSetOf (m.after advance calls) = true := by
  have := h.names calls.length (by simp)
  rwa [List.getElem_concat_length rfl, List.take_left] at this

/-! ## One call -/

theorem size_past_close (m : Mailbox) (n : Nat) : (m.close n).past.size = m.past.size := by
  rw [past_close]

theorem size_past_acknowledge (m : Mailbox) (consumer period : Nat) :
    (m.acknowledge consumer period).2.past.size = m.past.size :=
  size_past_congr (contents_acknowledge m consumer period)

/-- Only an advance adds to the complete sets. -/
theorem size_past_perform (m : Mailbox) (call : Call) :
    (m.perform advance call).2.past.size ≤ m.past.size + if call.isAdvance then 1 else 0 := by
  cases call with
  | append clause => exact (congrArg Array.size (past_append m clause)).le
  | advance n => exact (m.size_past_advance n).2
  | close n => exact (size_past_close m n).le
  | acknowledge consumer period => exact (size_past_acknowledge m consumer period).le
  | tail | isClosed | fetch => exact le_rfl

namespace IsLog

/-- An owner that acknowledges a set of its own moves its cursor, which does not count. -/
theorem setCursor_owner (h : m.IsLog owner workers window) {period : Nat}
    (hperiod : period ≤ m.past.size) :
    ({ m with cursors := m.cursors.set! owner (period + 1) } : Mailbox).IsLog owner workers
      window := by
  have hnext (c : Nat) (hc : c ≠ owner) :
      ({ m with cursors := m.cursors.set! owner (period + 1) } : Mailbox).next c = m.next c := by
    rw [next, Array.set!_eq_setIfInBounds, Array.getElem?_setIfInBounds, if_neg (Ne.symm hc), next]
  refine { h with
    size_cursors := by simpa using h.size_cursors
    consumed_eq := fun q s hs => ?_
    next_le := fun c => ?_
    released_read := fun q hq c hc hne => by rw [hnext c hne]; exact h.released_read q hq c hc hne }
  · rw [h.consumed_eq q s hs]
    unfold readers
    congr 1
    refine Finset.filter_congr fun c _ => and_congr_right fun hc => ?_
    rw [hnext c (by rwa [h.owner_eq] at hc)]
  · by_cases hc : c = owner
    · rw [hc, next, Array.set!_eq_setIfInBounds, Array.getElem?_setIfInBounds, if_pos rfl]
      split
      · simpa using hperiod
      · exact Nat.zero_le _
    · rw [hnext c hc]
      exact h.next_le c

/-- However the acknowledgment of a set ends, the mailbox stays a log. -/
theorem acknowledge (h : m.IsLog owner workers window) (consumer : Nat) {period : Nat}
    (hperiod : period ≤ m.past.size) :
    (m.acknowledge consumer period).2.IsLog owner workers window := by
  by_cases hne : consumer = m.owner
  · rw [hne]
    rcases m.acknowledge_own_cases period with ⟨f, hf⟩ | ⟨-, hf⟩
    · rw [hf]
      exact h
    · rw [hf, h.owner_eq]
      exact h.setCursor_owner hperiod
  · rcases acknowledge_cases m hne period with ⟨f, hf⟩ | ⟨hc, hnext, hok⟩
    · rw [hf]
      exact h
    · rw [hok]
      rw [h.size_cursors] at hc
      rw [h.owner_eq] at hne
      exact h.acknowledged hc hne hnext hperiod

/-- Every call keeps a mailbox a log. -/
theorem perform (h : m.IsLog owner workers window) (howner : owner < workers)
    (hcall : call.namesSetOf m = true) :
    (m.perform Mailbox.advance call).2.IsLog owner workers window := by
  cases call with
  | append clause => exact h.append clause
  | advance n => exact h.advance howner n
  | close n => exact h.close n
  | acknowledge consumer period => exact h.acknowledge consumer (set?_isSome_iff.1 hcall)
  | tail | isClosed | fetch => exact h

end IsLog

/-! ## A whole session -/

/-- The window of a mailbox that has been created is small enough to count behind any period. -/
theorem window_lt_of_create (h : create owner workers window = .ok m) : window < 2 ^ 63 := by
  unfold create at h
  obtain ⟨_, -, h⟩ := exists_of_bind_eq_ok h
  obtain ⟨initial, hinitial, h⟩ := exists_of_bind_eq_ok h
  obtain ⟨_, hreserve, -⟩ := exists_of_bind_eq_ok h
  obtain ⟨rfl, -⟩ := Word.add_eq_ok_iff.1 (eq_ok_of_mapError_eq_ok hinitial)
  unfold reserve at hreserve
  split at hreserve
  · rename_i hle
    simp only [entryBytes, maxTableBytes] at hle
    omega
  · cases hreserve

namespace Admissible

/-- After a session that can happen, a mailbox is a log that can be advanced once more. -/
theorem isLog (hm : create owner workers window = .ok m) (howner : owner < workers)
    (h : m.Admissible calls) : (m.after advance calls).IsLog owner workers window ∧
      (m.after advance calls).past.size ≤ calls.countP Call.isAdvance := by
  induction calls using List.reverseRecOn with
  | nil =>
    rw [after_nil, create_eq_fresh hm]
    exact ⟨isLog_fresh _ _ _, Nat.zero_le _⟩
  | append_singleton calls call ih =>
    obtain ⟨hlog, hsize⟩ := ih h.of_append
    rw [after_concat]
    refine ⟨hlog.perform howner h.names_last, ?_⟩
    have := size_past_perform (m.after advance calls) call
    rw [List.countP_append, List.countP_singleton]
    omega

/-- The periods can be counted, also those that have still to fall out of the window. -/
theorem word_lt (hm : create owner workers window = .ok m) (howner : owner < workers)
    (h : m.Admissible calls) : (m.after advance calls).past.size + window + 1 < Word.bound := by
  have hsize := (h.isLog hm howner).2
  have hadvances := h.advances_lt
  have hwindow := window_lt_of_create hm
  rw [Word.bound]
  omega

end Admissible

/-! ## The same session without sets leaving -/

/-- The mailbox with all sets that have left put back. -/
def keepAll (m : Mailbox) : Mailbox := { m with released := 0 }

theorem lookup_keepAll (m : Mailbox) (q : Nat) : m.keepAll.lookup q = m.set? q :=
  if_neg (Nat.not_lt_zero q)

theorem append_keepAll (m : Mailbox) (c : Clause) :
    m.keepAll.append c = ((m.append c).1, (m.append c).2.keepAll) := by
  rw [append_eq, append_eq]
  cases hm : m.isClosed <;> simp only [keepAll, isClosed] at hm ⊢ <;> simp [hm]

theorem close_keepAll (m : Mailbox) (n : Nat) : m.keepAll.close n = (m.close n).keepAll := by
  cases hm : m.isClosed with
  | true =>
    have hkeep : m.keepAll.isClosed = true := hm
    rw [close_of_closed hm, close_of_closed hkeep]
  | false =>
    have hkeep : m.keepAll.isClosed = false := hm
    rw [close_of_open hm, close_of_open hkeep]
    rfl

theorem modifySet_keepAll (m : Mailbox) (period : Nat) (f : ClauseSet → ClauseSet) :
    m.keepAll.modifySet period f = (m.modifySet period f).keepAll := by
  by_cases hp : period = m.past.size
  · have hkeep : period = m.keepAll.past.size := hp
    rw [modifySet, modifySet, if_pos hp, if_pos hkeep]
    rfl
  · have hkeep : ¬ period = m.keepAll.past.size := hp
    rw [modifySet, modifySet, if_neg hp, if_neg hkeep]
    rfl

theorem acknowledge_keepAll (m : Mailbox) (consumer period : Nat) :
    m.keepAll.acknowledge consumer period =
      ((m.acknowledge consumer period).1, (m.acknowledge consumer period).2.keepAll) := by
  have hcursor : m.keepAll.cursor consumer = m.cursor consumer := rfl
  have howner : m.keepAll.owner = m.owner := rfl
  unfold acknowledge acknowledgeSet
  rw [hcursor, howner]
  cases m.cursor consumer with
  | error f => rfl
  | ok next =>
    dsimp only
    by_cases hp : next = period
    · rw [if_neg (not_not.2 hp), if_neg (not_not.2 hp)]
      cases Word.add next 1 with
      | error f => rfl
      | ok next' =>
        by_cases ho : consumer = m.owner
        · simp only [ho, if_true]
          rfl
        · simp only [ho, if_false, if_true]
          exact Prod.ext rfl
            (modifySet_keepAll { m with cursors := m.cursors.set! consumer next' } period _)
    · rw [if_pos hp, if_pos hp]

/-- A release never fails while the periods and the window are small enough. -/
theorem firstKept_ok {past : Array ClauseSet} {window : Nat}
    (h : ∀ (q : Nat) (s : ClauseSet), past[q]? = some s → s.period + window < Word.bound)
    (consumers last period : Nat) : (firstKept past consumers window last period).2 = .ok () := by
  fun_induction firstKept past consumers window last period with
  | case1 | case3 | case5 => rfl
  | case2 period hp s _ f hf =>
    have := (Word.add_eq_error_iff.1 hf).2
    have := h period s (Array.getElem?_eq_getElem hp)
    omega
  | case4 _ _ _ _ _ _ _ ih => exact ih

/-- An advance of an open mailbox succeeds, as long as the periods can be counted. -/
theorem IsLabelled.advance_ok (h : m.IsLabelled owner workers window) (howner : owner < workers)
    (hopen : m.isClosed = false) (hword : m.past.size + window + 1 < Word.bound) (n : Nat) :
    (m.advance n).1 = .ok (m.past.size + 1) := by
  have hfull : m.tail.complete n = _ := ClauseSet.complete_eq_ok_iff.2 ⟨hopen, rfl⟩
  have hnext : Word.add m.tail.period 1 = .ok (m.past.size + 1) :=
    Word.add_eq_ok_iff.2 ⟨by rw [h.tail_label.2], by rw [h.tail_label.2]; omega⟩
  have hconsumers : Word.sub m.numWorkers 1 = .ok (workers - 1) :=
    Word.sub_eq_ok_iff.2 ⟨by rw [h.numWorkers_eq], by rw [h.numWorkers_eq]; omega⟩
  unfold Mailbox.advance release
  rw [hfull]
  dsimp only
  rw [hnext]
  dsimp only
  rw [hconsumers]
  dsimp only
  rw [firstKept_ok]
  · rfl
  · intro q s hs
    obtain ⟨hq, -⟩ := Array.getElem?_eq_some_iff.1 hs
    have hpast : (m.advanced n 0).past[q]? = some s := hs
    have hperiod := ((h.advanced n 0).label q s (set?_of_past_advanced hpast).2).2
    rw [hperiod, h.window_eq]
    rw [Array.size_push] at hq
    omega

namespace IsLog

theorem advance_ok (h : m.IsLog owner workers window) (howner : owner < workers)
    (hopen : m.isClosed = false) (hword : m.past.size + window + 1 < Word.bound) (n : Nat) :
    (m.advance n).1 = .ok (m.past.size + 1) := h.isLabelled.advance_ok howner hopen hword n

/-- A consumer or anybody else sees the same sets when all are kept. -/
theorem fetch_keepAll (h : m.IsLog owner workers window) (consumer period : Nat) :
    m.keepAll.fetch consumer period = m.fetch consumer period := by
  by_cases hne : consumer = owner
  · have howner : consumer = m.owner := by rw [h.owner_eq, hne]
    have howner' : consumer = m.keepAll.owner := howner
    rw [fetch, fetch, if_pos howner, if_pos howner']
    rfl
  · by_cases hc : consumer < workers
    · have hkeep : m.keepAll.IsLog owner workers window :=
        { h with
          released_read := fun q hq => absurd hq (Nat.not_lt_zero q)
          released_old := fun q hq => absurd hq (Nat.not_lt_zero q) }
      rw [h.fetch_eq hc hne, hkeep.fetch_eq hc hne]
      rfl
    · have hnone : m.cursors[consumer]? = none :=
        Array.getElem?_eq_none (by rw [h.size_cursors]; omega)
      have hcursor : m.cursor consumer = .error .indexOutOfBounds := by rw [cursor, hnone]
      have hcursor' : m.keepAll.cursor consumer = .error .indexOutOfBounds := hcursor
      rw [fetch, fetch, hcursor, hcursor']
      rfl

/-- Apart from the sets that leave, an advance does the same when all are kept. -/
theorem extend_keepAll (h : m.IsLog owner workers window) (howner : owner < workers)
    (hword : m.past.size + window + 1 < Word.bound) (n : Nat) :
    m.keepAll.extend n = ((m.advance n).1, (m.advance n).2.keepAll) := by
  cases hopen : m.isClosed with
  | true =>
    have hfull := ClauseSet.complete_of_isCompleted hopen n
    have hfull' : m.keepAll.tail.complete n = _ := hfull
    rw [extend, Mailbox.advance, hfull, hfull']
    rfl
  | false =>
    have hok := h.advance_ok howner hopen hword n
    obtain ⟨released, hadvanced⟩ := eq_advanced_of_ok hok
    have hfull : m.keepAll.tail.complete n = _ := ClauseSet.complete_eq_ok_iff.2 ⟨hopen, rfl⟩
    have hnext : Word.add m.keepAll.tail.period 1 = .ok (m.tail.period + 1) :=
      Word.add_eq_ok_iff.2 ⟨rfl, by rw [keepAll, h.tail_period]; omega⟩
    rw [hok, hadvanced, extend, hfull]
    dsimp only
    rw [hnext, h.tail_period]
    simp only [advanced, keepAll, h.tail_period]

/-- Every call gets the same answer when all sets are kept, and does the same to the mailbox. -/
theorem perform_keepAll (h : m.IsLog owner workers window) (howner : owner < workers)
    (hword : m.past.size + window + 1 < Word.bound) (call : Call) :
    m.keepAll.perform extend call =
      ((m.perform Mailbox.advance call).1, (m.perform Mailbox.advance call).2.keepAll) := by
  cases call with
  | append clause =>
    simp only [Mailbox.perform]
    rw [append_keepAll]
  | advance n =>
    simp only [Mailbox.perform]
    rw [h.extend_keepAll howner hword]
    rfl
  | close n =>
    simp only [Mailbox.perform]
    rw [close_keepAll]
  | fetch consumer period =>
    simp only [Mailbox.perform]
    rw [h.fetch_keepAll]
  | acknowledge consumer period =>
    simp only [Mailbox.perform]
    rw [acknowledge_keepAll]
  | tail | isClosed => rfl

end IsLog

namespace Admissible

/-- The answers of a session, and what it leaves behind, when all sets are kept. -/
theorem keepAll (hm : create owner workers window = .ok m) (howner : owner < workers)
    (h : m.Admissible calls) : m.answers extend calls = m.answers advance calls ∧
      m.after extend calls = (m.after advance calls).keepAll := by
  induction calls using List.reverseRecOn with
  | nil =>
    rw [create_eq_fresh hm]
    exact ⟨rfl, rfl⟩
  | append_singleton calls call ih =>
    obtain ⟨hanswers, hafter⟩ := ih h.of_append
    obtain ⟨hlog, -⟩ := h.of_append.isLog hm howner
    have hcall := hlog.perform_keepAll howner (h.of_append.word_lt hm howner) call
    rw [answers_concat, answers_concat, after_concat, after_concat, hanswers, hafter, hcall]
    exact ⟨rfl, rfl⟩

end Admissible

/-- That sets leave is not noticed. Every call of a session on a mailbox gets the answer that it
would get if no set ever left, a failing one the same fault. So a consumer that fetches gets none
only if it has read past `period`, or if the owner has not opened the set at the consumer's cursor,
and it sees that set else. The owner finds its own sets of all periods down to `window` behind the
newest complete one. -/
theorem leaving_unnoticed (hm : create owner workers window = .ok m) (howner : owner < workers)
    (h : m.Admissible calls) :
    m.answers advance calls = m.answers extend calls ∧
    let left := m.after advance calls
    let kept := m.after extend calls
    kept.retained = List.range (left.tail.period + 1) ∧
    (∀ consumer < workers, consumer ≠ owner → ∀ period, ∃ cursor, left.cursor consumer = .ok cursor ∧
      (left.fetch consumer period = .ok none ↔ period < cursor ∨ left.tail.period < cursor) ∧
      ∀ s, left.fetch consumer period = .ok (some s) → s.period = cursor) ∧
    ∀ period, left.completed ≤ period + window + 1 → left.lookup period = kept.lookup period := by
  obtain ⟨hanswers, hafter⟩ := h.keepAll hm howner
  obtain ⟨hlog, -⟩ := h.isLog hm howner
  refine ⟨hanswers.symm, ?_, fun consumer hc hne period => ?_, fun period hperiod => ?_⟩
  · rw [hafter, hlog.tail_period, List.range_eq_range']
    rfl
  · refine ⟨_, hlog.cursor_eq hc, ?_, fun s hs => ?_⟩
    · rw [hlog.fetch_eq hc hne, Except.ok.injEq, hlog.tail_period]
      split
      · simp [*]
      · rw [← Option.not_isSome_iff_eq_none, set?_isSome_iff, not_le, or_iff_right ‹_›]
    · rw [hlog.fetch_eq hc hne, Except.ok.injEq] at hs
      split at hs
      · cases hs
      · exact (hlog.set?_spec hs).2
  · rw [hafter, lookup_keepAll]
    refine hlog.lookup_own ?_
    unfold completed at hperiod
    omega

/-- A consumer acknowledges the open set as well, and the first set leaves. Three calls fail: the
consumer acknowledges a set twice, the owner acknowledges a set of its own, and it advances after it
has closed. -/
theorem leaving_unnoticed_two : ∃ m calls, create 0 2 0 = .ok m ∧ m.Admissible calls ∧
    (m.after advance calls).retained = [1, 2] ∧ (m.after extend calls).retained = [0, 1, 2] ∧
    (m.answers advance calls).countP (!·.isOk) = 3 ∧
    m.answers advance calls = m.answers extend calls := by
  let calls : List Call := [.append ⟨[1, 2], by decide⟩, .advance 5, .fetch 1 9, .acknowledge 1 0,
    .acknowledge 1 1, .acknowledge 1 0, .advance 6, .acknowledge 0 0, .fetch 1 9, .close 7,
    .advance 8, .isClosed, .tail]
  have hcalls : (fresh 0 2 0).Admissible calls := ⟨by decide +kernel, by decide⟩
  have hcreate : create 0 2 0 = .ok (fresh 0 2 0) := rfl
  obtain ⟨hanswers, hkept, -⟩ := leaving_unnoticed hcreate (by decide) hcalls
  exact ⟨fresh 0 2 0, calls, hcreate, hcalls, by decide +kernel, hkept.trans (by decide +kernel),
    by decide +kernel, hanswers⟩

end Mailbox

end ClauseExchange
