import ClauseExchange.Proofs.Mailbox.Session
import ClauseExchange.Proofs.Mailbox.Retained
import Mathlib.Data.Finset.Fold

/-!
# Which sets a mailbox retains

The retained sets of a mailbox are those from some period on, up to the newest. An advance raises
that period to the oldest one that anybody needs: `Mailbox.needed` is the least of the consumers'
cursors and of the oldest period in the owner's window.

* `IsLog.released_advance` says that an advance lets exactly the sets leave that are not needed.
* `Mailbox.retained_exactly` says, for all sessions, which sets are retained, who has read them, and
  when one leaves.
-/

namespace ClauseExchange

namespace Mailbox

variable {m m₀ : Mailbox} {owner workers window : Nat} {calls : List Call}

/-- The oldest period that a consumer has still to read, or that is in its owner's window once the
tail is complete. -/
def needed (m : Mailbox) : Nat :=
  ((Finset.range m.numWorkers).erase m.owner).fold min (m.tail.period - m.window) m.next

theorem mem_retained_iff {p : Nat} : p ∈ m.retained ↔ m.released ≤ p ∧ p ≤ m.past.size := by
  rw [retained, List.mem_range'_1]
  omega

/-- The retained sets are those that can be looked up. -/
theorem mem_retained_iff_lookup {p : Nat} : p ∈ m.retained ↔ (m.lookup p).isSome := by
  rw [mem_retained_iff, lookup]
  split
  · simp only [Option.isSome_none, Bool.false_eq_true, iff_false]
    omega
  · rw [set?_isSome_iff]
    omega

theorem set?_of_lookup {p : Nat} {s : ClauseSet} (h : m.lookup p = some s) : m.set? p = some s := by
  rw [lookup] at h
  split at h
  · cases h
  · exact h

/-- Only an advance of an open mailbox changes which sets are retained. -/
theorem retained_perform {call : Call} (h : ¬ (call.isAdvance = true ∧ m.isClosed = false)) :
    (m.perform advance call).2.retained = m.retained := by
  cases call with
  | append clause => exact retained_append m clause
  | close n => exact retained_close m n
  | acknowledge consumer period => exact retained_acknowledge m consumer period
  | tail | isClosed | fetch => rfl
  | advance n =>
    rcases advance_cases m n with ⟨hm, -⟩ | ⟨hopen, -⟩
    · exact congrArg retained hm
    · exact absurd ⟨rfl, hopen⟩ h

namespace IsLog

/-- The newest set never leaves. -/
theorem released_le_size (h : m.IsLog owner workers window) : m.released ≤ m.past.size := by
  by_contra hlt
  have := h.released_old m.past.size (not_le.1 hlt)
  omega

theorem le_needed_iff (h : m.IsLog owner workers window) {p : Nat} :
    p ≤ m.needed ↔ p ≤ m.tail.period - window ∧ ∀ c < workers, c ≠ owner → p ≤ m.next c := by
  rw [needed, Finset.le_fold_min, h.numWorkers_eq, h.owner_eq, h.window_eq]
  refine and_congr_right fun _ => forall_congr' fun c => ?_
  rw [Finset.mem_erase, Finset.mem_range]
  tauto

/-- An advance that succeeds keeps the sets that are needed and no others. -/
theorem released_advance (h : m.IsLog owner workers window) (howner : owner < workers) {n k : Nat}
    (hok : (m.advance n).1 = .ok k) : (m.advance n).2.released = m.needed := by
  obtain ⟨released, hm, hneeded⟩ := oldest_of_advance hok
  have hlog := h.advance howner n
  have hsize := (advance_of_ok hok).2
  have hrel : (m.advance n).2.released = released := by rw [hm, advanced]
  apply le_antisymm
  · refine h.le_needed_iff.2 ⟨?_, fun c hc hne => ?_⟩
    · by_contra hlt
      have := hlog.released_old ((m.advance n).2.released - 1) (by omega)
      rw [h.tail_period] at hlt
      omega
    · rw [← next_advance m n c]
      exact hlog.released_le_next hc hne
  · by_contra hlt
    -- the oldest set that is left would be needed by nobody
    obtain ⟨hwindow, hread⟩ := h.le_needed_iff.1 (Nat.succ_le_of_lt (not_le.1 hlt))
    rw [hrel, h.tail_period] at hwindow
    have hpast : released < (m.advanced n released).past.size := by
      rw [advanced, Array.size_push]
      omega
    have hs := Array.getElem?_eq_getElem hpast
    have hperiod := (h.past_advanced hs).2.1
    rcases hneeded _ hs with hcount | hold
    · rw [h.consumed_advanced (set?_of_past_advanced hs).2, h.numWorkers_eq] at hcount
      obtain ⟨c, hc, hne, hle⟩ := h.exists_next_le howner hcount
      have := hread c hc hne
      omega
    · rw [h.tail_period, h.window_eq, hperiod] at hold
      omega

/-- A set leaves at an advance if all consumers have read it and it falls out of the window. -/
theorem leaves_iff (h : m.IsLog owner workers window) (howner : owner < workers) {n k p : Nat}
    (hok : (m.advance n).1 = .ok k) (hp : p ∈ m.retained) : p ∉ (m.advance n).2.retained ↔
      p + window < m.tail.period ∧ ∀ c < workers, c ≠ owner → p < m.next c := by
  have hle := (mem_retained_iff.1 hp).2
  have hafter : p ∈ (m.advance n).2.retained ↔ m.needed ≤ p := by
    rw [mem_retained_iff, h.released_advance howner hok, (advance_of_ok hok).2]
    omega
  rw [hafter, not_le, ← Nat.succ_le_iff, h.le_needed_iff]
  exact and_congr (by omega) Iff.rfl

end IsLog

/-- Which sets a mailbox retains. They are those of some consecutive periods, up to the newest; all
but the newest are complete, and each counts the consumers whose cursor has passed it. An advance
retains exactly the sets from the oldest period on that is in the owner's window or that some
consumer has still to read. So a set leaves at an advance if all consumers have read it and it has
fallen out of the window, and on no other occasion. -/
theorem retained_exactly (hm : create owner workers window = .ok m₀) (howner : owner < workers)
    (h : m₀.Admissible calls) :
    let m := m₀.after advance calls
    (∃ first ≤ m.tail.period, m.retained = List.range' first (m.tail.period + 1 - first)) ∧
    (∀ p, p ∈ m.retained ↔ (m.lookup p).isSome) ∧
    (∀ p s, m.lookup p = some s → s.period = p ∧ (p < m.tail.period → s.isCompleted = true) ∧
      s.consumed = ((Finset.range workers).filter fun c => c ≠ owner ∧ p < m.next c).card) ∧
    (m.isClosed = false → ∀ n, (m.advance n).1 = .ok (m.tail.period + 1) ∧
      let oldest := ((Finset.range workers).erase owner).fold min (m.tail.period - window) m.next
      (m.advance n).2.retained = List.range' oldest (m.tail.period + 2 - oldest)) ∧
    ∀ call, ∀ p ∈ m.retained, p ∉ (m.perform advance call).2.retained ↔
      (call.isAdvance = true ∧ m.isClosed = false) ∧
        p + window < m.tail.period ∧ ∀ c < workers, c ≠ owner → p < m.next c := by
  intro m
  have hlog : m.IsLog owner workers window := (h.isLog hm howner).1
  have hword : m.past.size + window + 1 < Word.bound := h.word_lt hm howner
  clear_value m
  refine ⟨⟨m.released, ?_, ?_⟩, fun p => mem_retained_iff_lookup, fun p s hs => ?_,
    fun hopen n => ⟨?_, ?_⟩, fun call p hp => ?_⟩
  · rw [hlog.tail_period]
    exact hlog.released_le_size
  · rw [retained, hlog.tail_period]
  · have hset := set?_of_lookup hs
    refine ⟨(hlog.set?_spec hset).2, fun hlt => ?_, ?_⟩
    · rw [hlog.set?_completed_iff hset]
      rw [hlog.tail_period] at hlt
      exact Nat.lt_add_right _ hlt
    · rw [hlog.consumed_eq p s hset, readers, hlog.numWorkers_eq, hlog.owner_eq]
  · rw [hlog.advance_ok howner hopen hword n, hlog.tail_period]
  · have hok := hlog.advance_ok howner hopen hword n
    have hneeded : m.needed = ((Finset.range workers).erase owner).fold min
        (m.tail.period - window) m.next := by
      rw [needed, hlog.numWorkers_eq, hlog.owner_eq, hlog.window_eq]
    dsimp only
    rw [← hneeded, retained, hlog.released_advance howner hok, (advance_of_ok hok).2,
      hlog.tail_period]
  · by_cases hcall : call.isAdvance = true ∧ m.isClosed = false
    · cases call with
      | advance n =>
        rw [and_iff_right hcall, perform,
          hlog.leaves_iff howner (hlog.advance_ok howner hcall.2 hword n) hp]
      | tail | append | close | isClosed | fetch | acknowledge => simp [Call.isAdvance] at hcall
    · rw [retained_perform hcall]
      exact ⟨fun hleft => absurd hp hleft, fun hleft => absurd hleft.1 hcall⟩

/-- Two consumers read at different speeds, one of them the open set. Then one advance lets one set
leave, that neither still needs. -/
theorem retained_exactly_two_readers : ∃ m calls, create 1 3 0 = .ok m ∧ m.Admissible calls ∧
    (m.after advance calls).retained = [0, 1, 2] ∧
    ((m.after advance calls).advance 5).2.retained = [1, 2, 3] := by
  let calls : List Call := [.advance 5, .acknowledge 2 0, .fetch 0 9, .acknowledge 2 1, .advance 5,
    .acknowledge 0 0, .acknowledge 2 2, .acknowledge 2 0]
  have hcalls : (fresh 1 3 0).Admissible calls := ⟨by decide +kernel, by decide⟩
  have hcreate : create 1 3 0 = .ok (fresh 1 3 0) := rfl
  obtain ⟨-, -, -, hadvance, -⟩ := retained_exactly hcreate (by decide) hcalls
  exact ⟨fresh 1 3 0, calls, hcreate, hcalls, by decide +kernel,
    (hadvance (by decide +kernel) 5).2.trans (by decide +kernel)⟩

end Mailbox

end ClauseExchange
