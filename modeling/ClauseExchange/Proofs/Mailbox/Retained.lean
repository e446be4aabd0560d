import ClauseExchange.Proofs.Mailbox.Operations

/-!
# How many sets a mailbox retains

Sets leave a mailbox only when its owner advances, and then as many as may leave. So after an
advance the mailbox either holds no more than the owner's window, or its oldest set is one that
some consumer has still to read: `Mailbox.IsLog.length_retained_advance`.
-/

namespace ClauseExchange

namespace Mailbox

variable {m m' : Mailbox} {owner workers window : Nat}

theorem length_retained (m : Mailbox) : m.retained.length = m.past.size + 1 - m.released :=
  List.length_range'

theorem retained_congr (hsize : m'.past.size = m.past.size) (hreleased : m'.released = m.released) :
    m'.retained = m.retained := by rw [retained, retained, hsize, hreleased]

/-! ## What leaves the sets where they are -/

@[simp] theorem retained_append (m : Mailbox) (c : Clause) :
    (m.append c).2.retained = m.retained := by
  refine retained_congr (by rw [past_append]) ?_
  rw [append_eq]
  split <;> rfl

@[simp] theorem retained_close (m : Mailbox) (n : Nat) : (m.close n).retained = m.retained := by
  refine retained_congr (by rw [past_close]) ?_
  cases h : m.isClosed with
  | true => rw [close_of_closed h]
  | false => rw [close_of_open h]

@[simp] theorem retained_modifySet (m : Mailbox) (q : Nat) (f : ClauseSet → ClauseSet) :
    (m.modifySet q f).retained = m.retained := by
  unfold modifySet
  split
  · rfl
  · exact retained_congr Array.size_modify rfl

/-- However an acknowledgment ends, no set leaves. -/
@[simp] theorem retained_acknowledge (m : Mailbox) (consumer period : Nat) :
    (m.acknowledge consumer period).2.retained = m.retained := by
  rcases m.acknowledgeSet_cases consumer m.owner period with ⟨f, heq⟩ | ⟨-, -, -, heq⟩
  · rw [acknowledge, heq]
  · rw [acknowledge, heq, if_pos rfl]
    split
    · rfl
    · exact retained_modifySet _ _ _

/-! ## Advancing -/

/-- A release that succeeds stops only at a set that is still needed. -/
theorem firstKept_stop {past : Array ClauseSet} {consumers window last period : Nat} {s : ClauseSet}
    (h : (firstKept past consumers window last period).2 = .ok ())
    (hs : past[(firstKept past consumers window last period).1]? = some s) :
    s.consumed < consumers ∨ last ≤ s.period + window := by
  fun_induction firstKept past consumers window last period with
  | case1 period hp _ hread =>
    obtain rfl := Option.some.inj ((Array.getElem?_eq_getElem hp).symm.trans hs)
    exact .inl hread
  | case2 => cases h
  | case3 period hp _ _ kept hkept hold =>
    obtain rfl := Option.some.inj ((Array.getElem?_eq_getElem hp).symm.trans hs)
    obtain ⟨rfl, -⟩ := Word.add_eq_ok_iff.1 hkept
    exact .inr hold
  | case4 period hp _ _ kept hkept hold ih => exact ih h hs
  | case5 period hp =>
    rw [Array.getElem?_eq_none (not_lt.1 hp)] at hs
    cases hs

/-- The oldest set that is left by an advance that succeeds is still needed. -/
theorem oldest_of_advance {n k : Nat} (h : (m.advance n).1 = .ok k) :
    ∃ released, (m.advance n).2 = m.advanced n released ∧
      ∀ s, (m.advanced n released).past[released]? = some s →
        s.consumed < m.numWorkers - 1 ∨ m.tail.period ≤ s.period + m.window := by
  unfold advance at h ⊢
  split at h
  · cases h
  · rename_i full hfull
    obtain ⟨-, rfl⟩ := ClauseSet.complete_eq_ok_iff.1 hfull
    dsimp only at h ⊢
    split at h
    · cases h
    · rename_i next hnext
      obtain ⟨rfl, -⟩ := Word.add_eq_ok_iff.1 hnext
      unfold release at h ⊢
      split at h
      · cases h
      · rename_i consumers hc
        obtain ⟨rfl, -⟩ := Word.sub_eq_ok_iff.1 hc
        dsimp only at h ⊢
        have hfit {x : Except Fault Unit} (hx : (x.map fun _ => m.tail.period + 1) = .ok k) :
            x = .ok () := by
          cases x with
          | error f => cases hx
          | ok u => rfl
        exact ⟨_, rfl, fun s hs => firstKept_stop (hfit h) hs⟩

namespace IsLog

/-- A set that not all consumers have read is the next one of some consumer, or lies behind it. -/
theorem exists_next_le (h : m.IsLog owner workers window) (howner : owner < workers) {q : Nat}
    (hq : (m.readers q).card < workers - 1) : ∃ c < workers, c ≠ owner ∧ m.next c ≤ q := by
  by_contra hnone
  push Not at hnone
  have hsub : (Finset.range workers).erase owner ⊆ m.readers q := by
    intro c hc
    obtain ⟨hne, hc⟩ := Finset.mem_erase.1 hc
    have hlt := hnone c (Finset.mem_range.1 hc) hne
    exact Finset.mem_filter.2 ⟨by rwa [h.numWorkers_eq], by rwa [h.owner_eq], hlt⟩
  have hcard := Finset.card_le_card hsub
  rw [Finset.card_erase_of_mem (Finset.mem_range.2 howner), Finset.card_range] at hcard
  omega

/-- After an advance a mailbox holds the sets of its owner's window, or those that some consumer has
still to read. -/
theorem length_retained_advance (h : m.IsLog owner workers window) (howner : owner < workers)
    {n k : Nat} (hok : (m.advance n).1 = .ok k) :
    (m.advance n).2.retained.length ≤ window + 2 ∨ ∃ c < workers, c ≠ owner ∧
      (m.advance n).2.retained.length ≤ m.past.size + 2 - m.next c := by
  obtain ⟨released, hm, hneeded⟩ := oldest_of_advance hok
  have hsize : (m.advanced n released).past.size = m.past.size + 1 := Array.size_push _
  have hlength : (m.advance n).2.retained.length = m.past.size + 2 - released := by
    rw [hm, length_retained, hsize]
    rfl
  rw [hlength]
  cases hs : (m.advanced n released).past[released]? with
  | none =>
    have := Array.getElem?_eq_none_iff.1 hs
    exact .inl (by omega)
  | some s =>
    obtain ⟨-, hperiod, -⟩ := h.past_advanced hs
    rcases hneeded s hs with hread | hold
    · rw [h.consumed_advanced (set?_of_past_advanced hs).2, h.numWorkers_eq] at hread
      obtain ⟨c, hc, hne, hle⟩ := h.exists_next_le howner hread
      exact .inr ⟨c, hc, hne, by omega⟩
    · rw [h.tail_period, h.window_eq, hperiod] at hold
      exact .inl (by omega)

end IsLog

end Mailbox

end ClauseExchange
