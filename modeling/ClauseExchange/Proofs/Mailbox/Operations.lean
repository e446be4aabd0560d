import ClauseExchange.Proofs.Mailbox.Log

/-!
# What the operations do to a mailbox

One lemma an operation that says what it leaves behind (`append_eq`, `advance_cases`, `close_eq`,
`acknowledge_eq`), and from these that every operation keeps `Mailbox.IsLog` and that a mailbox only
grows: a frozen set stays as it is, and a closed mailbox gets no further sets (`Mailbox.Grows`).
-/

namespace ClauseExchange

namespace ClauseSet

theorem complete_eq_ok_iff {s t : ClauseSet} {n : Nat} :
    s.complete n = .ok t ↔ s.isCompleted = false ∧ t = { s with nextLength? := some n } := by
  unfold complete
  split
  · simp_all
  · rename_i h
    rw [Except.ok.injEq]
    exact ⟨fun ht => ⟨by simpa using h, ht.symm⟩, fun ht => ht.2.symm⟩

theorem complete_of_isCompleted {s : ClauseSet} (h : s.isCompleted = true) (n : Nat) :
    s.complete n = .error (.completedTwice s.producer s.period) := by
  rw [complete, if_pos h]

end ClauseSet

namespace Mailbox

/-- The mailbox `m'` may be a later state of `m`. -/
structure Grows (m m' : Mailbox) : Prop where
  /-- What is complete stays as it is. -/
  frozen : ∀ (q : Nat) (f : List Clause × Nat), m.frozen? q = some f → m'.frozen? q = some f
  next_le : ∀ c, m.next c ≤ m'.next c
  past_le : m.past.size ≤ m'.past.size
  /-- A closed mailbox stays closed and gets no further set. -/
  closed : m.isClosed = true → m'.isClosed = true ∧ m'.past.size = m.past.size

namespace Grows

theorem refl (m : Mailbox) : m.Grows m :=
  ⟨fun _ _ h => h, fun _ => le_rfl, le_rfl, fun h => ⟨h, rfl⟩⟩

theorem trans {m₁ m₂ m₃ : Mailbox} (h : m₁.Grows m₂) (h' : m₂.Grows m₃) : m₁.Grows m₃ where
  frozen q f hf := h'.frozen q f (h.frozen q f hf)
  next_le c := (h.next_le c).trans (h'.next_le c)
  past_le := h.past_le.trans h'.past_le
  closed hc :=
    ⟨(h'.closed (h.closed hc).1).1, (h'.closed (h.closed hc).1).2.trans (h.closed hc).2⟩

/-- A log does not lose complete sets. -/
theorem completed_le {m m' : Mailbox} {owner workers window owner' workers' window' : Nat}
    (h : m.Grows m') (hm : m.IsLog owner workers window) (hm' : m'.IsLog owner' workers' window') :
    m.completed ≤ m'.completed := by
  by_contra hlt
  obtain ⟨f, hf⟩ := Option.isSome_iff_exists.1 (hm.frozen?_isSome_iff.2 (not_le.1 hlt))
  have hsome : (m'.frozen? m'.completed).isSome := by rw [h.frozen _ f hf]; rfl
  exact lt_irrefl _ (hm'.frozen?_isSome_iff.1 hsome)

end Grows

variable {m : Mailbox} {owner workers window : Nat}

/-! ## Appending -/

theorem append_eq (m : Mailbox) (c : Clause) :
    m.append c = if m.isClosed then (.error (.appendToCompleted m.tail.producer m.tail.period), m)
      else (.ok (), { m with tail := m.tail.push c }) := rfl

theorem append_of_error {m : Mailbox} {c : Clause} {f : Fault} (h : (m.append c).1 = .error f) :
    (m.append c).2 = m := by
  rw [append_eq] at h ⊢
  split
  · rfl
  · rename_i hopen
    rw [if_neg hopen] at h
    cases h

theorem set?_append_of_lt (m : Mailbox) (c : Clause) {q : Nat} (hq : q ≠ m.past.size) :
    (m.append c).2.set? q = m.set? q := by
  rw [append_eq]
  split
  · rfl
  · simp [set?, hq]

@[simp] theorem next_append (m : Mailbox) (c : Clause) (w : Nat) :
    (m.append c).2.next w = m.next w := by
  rw [append_eq]
  split <;> rfl

@[simp] theorem past_append (m : Mailbox) (c : Clause) : (m.append c).2.past = m.past := by
  rw [append_eq]
  split <;> rfl

@[simp] theorem isClosed_append (m : Mailbox) (c : Clause) :
    (m.append c).2.isClosed = m.isClosed := by
  rw [append_eq]
  split <;> rfl

theorem grows_append (m : Mailbox) (c : Clause) : m.Grows (m.append c).2 where
  frozen q f hf := by
    by_cases hq : q = m.past.size
    · -- the tail has nothing frozen unless the mailbox is closed, and then nothing is appended
      rw [append_eq]
      split
      · exact hf
      · rename_i hopen
        have hs : m.set? q = some m.tail := if_pos hq
        rw [frozen?_of_set? hs] at hf
        have := ClauseSet.isSome_frozen? m.tail
        rw [hf] at this
        exact absurd this.symm hopen
    · rw [frozen?, set?_append_of_lt m c hq]
      exact hf
  next_le w := by rw [next_append]
  past_le := by rw [past_append]
  closed h := by rw [isClosed_append, past_append]; exact ⟨h, rfl⟩

namespace IsLog

theorem append (h : m.IsLog owner workers window) (c : Clause) :
    (m.append c).2.IsLog owner workers window := by
  rw [append_eq]
  split
  · exact h
  · refine { h with consumed_eq := fun q s hs => ?_ }
    have hr : ({ m with tail := m.tail.push c } : Mailbox).readers q = m.readers q := rfl
    rw [hr]
    unfold set? at hs
    split at hs
    · rename_i hq
      obtain rfl := Option.some.inj hs
      exact h.consumed_eq q m.tail (if_pos hq)
    · rename_i hq
      exact h.consumed_eq q s (by rw [set?, if_neg hq]; exact hs)

end IsLog

/-! ## Advancing -/

/-- The sets that a release lets go have all been read, and lie behind the owner's window. -/
theorem firstKept_spec (past : Array ClauseSet) (consumers window last period : Nat) :
    period ≤ (firstKept past consumers window last period).1 ∧
      ∀ q, period ≤ q → q < (firstKept past consumers window last period).1 →
        ∃ s, past[q]? = some s ∧ consumers ≤ s.consumed ∧ s.period + window < last := by
  fun_induction firstKept past consumers window last period with
  | case1 | case2 | case3 | case5 => exact ⟨le_rfl, fun q h₁ h₂ => absurd h₂ (by simpa using h₁)⟩
  | case4 period hp s hread kept hkept hold ih =>
    obtain ⟨rfl, -⟩ := Word.add_eq_ok_iff.1 hkept
    refine ⟨by omega, fun q h₁ h₂ => ?_⟩
    by_cases hq : q = period
    · subst hq
      exact ⟨s, Array.getElem?_eq_getElem hp, by omega, by omega⟩
    · exact ih.2 q (by omega) h₂

/-- The mailbox after its tail has been completed and the next set opened, with `released` sets
gone. -/
def advanced (m : Mailbox) (nextLength released : Nat) : Mailbox :=
  { m with
    past := m.past.push { m.tail with nextLength? := some nextLength }
    tail := .opened m.owner (m.tail.period + 1)
    released }

theorem advance_cases (m : Mailbox) (n : Nat) :
    ((m.advance n).2 = m ∧ ∃ f, (m.advance n).1 = .error f) ∨
      m.isClosed = false ∧ ∃ released, (m.advance n).2 = m.advanced n released ∧
        ∀ q < released, q < m.released ∨
          ∃ s, (m.advanced n released).past[q]? = some s ∧ m.numWorkers - 1 ≤ s.consumed ∧
            s.period + m.window < m.tail.period := by
  unfold advance
  split
  · exact .inl ⟨rfl, _, rfl⟩
  · rename_i full hfull
    obtain ⟨hopen, rfl⟩ := ClauseSet.complete_eq_ok_iff.1 hfull
    dsimp only
    split
    · exact .inl ⟨rfl, _, rfl⟩
    · rename_i next hnext
      obtain ⟨rfl, -⟩ := Word.add_eq_ok_iff.1 hnext
      refine .inr ⟨hopen, ?_⟩
      unfold release
      split
      · exact ⟨m.released, rfl, fun q hq => .inl hq⟩
      · rename_i consumers hc
        obtain ⟨rfl, -⟩ := Word.sub_eq_ok_iff.1 hc
        refine ⟨_, rfl, fun q hq => ?_⟩
        by_cases hq' : q < m.released
        · exact .inl hq'
        · exact .inr ((firstKept_spec _ _ _ _ _).2 q (by simpa using hq') hq)

@[simp] theorem next_advance (m : Mailbox) (n c : Nat) : (m.advance n).2.next c = m.next c := by
  rcases advance_cases m n with ⟨h, -⟩ | ⟨-, r, h, -⟩ <;> rw [h]
  rfl

theorem eq_advanced_of_ok {m : Mailbox} {n k : Nat} (h : (m.advance n).1 = .ok k) :
    ∃ released, (m.advance n).2 = m.advanced n released := by
  rcases advance_cases m n with ⟨-, f, hf⟩ | ⟨-, released, hm, -⟩
  · rw [h] at hf
    cases hf
  · exact ⟨released, hm⟩

/-- An advance that succeeds completes one set and leaves the mailbox open. -/
theorem advance_of_ok {m : Mailbox} {n k : Nat} (h : (m.advance n).1 = .ok k) :
    (m.advance n).2.isClosed = false ∧ (m.advance n).2.past.size = m.past.size + 1 := by
  obtain ⟨released, hm⟩ := eq_advanced_of_ok h
  rw [hm]
  exact ⟨rfl, Array.size_push _⟩

/-- However an advance ends, it completes at most one set. -/
theorem size_past_advance (m : Mailbox) (n : Nat) :
    m.past.size ≤ (m.advance n).2.past.size ∧
      (m.advance n).2.past.size ≤ m.past.size + 1 := by
  rcases advance_cases m n with ⟨h, -⟩ | ⟨-, released, h, -⟩
  · rw [h]
    omega
  · rw [h, advanced, Array.size_push]
    omega

theorem set?_advanced_of_lt (m : Mailbox) (n r : Nat) {q : Nat} (hq : q < m.past.size) :
    (m.advanced n r).set? q = m.set? q := by
  have h₁ : ¬ q = m.past.size + 1 := by omega
  have h₂ : ¬ q = m.past.size := by omega
  simp [advanced, set?, h₁, h₂, Array.getElem?_push]

theorem set?_advanced_size (m : Mailbox) (n r : Nat) :
    (m.advanced n r).set? m.past.size = some { m.tail with nextLength? := some n } := by
  simp [advanced, set?]

theorem set?_advanced_succ (m : Mailbox) (n r : Nat) :
    (m.advanced n r).set? (m.past.size + 1) = some (.opened m.owner (m.tail.period + 1)) := by
  simp [advanced, set?]

theorem frozen?_eq_none_of_open (hopen : m.isClosed = false) : m.frozen? m.past.size = none := by
  have hs : m.set? m.past.size = some m.tail := if_pos rfl
  have := ClauseSet.isSome_frozen? m.tail
  rw [frozen?_of_set? hs]
  rw [isClosed] at hopen
  rw [hopen] at this
  exact Option.not_isSome_iff_eq_none.1 (by simp [this])

theorem grows_advanced (hopen : m.isClosed = false) (n r : Nat) : m.Grows (m.advanced n r) where
  frozen q f hf := by
    have hq : q ≠ m.past.size := by
      rintro rfl
      rw [frozen?_eq_none_of_open hopen] at hf
      cases hf
    have hle : q ≤ m.past.size := by
      rw [← set?_isSome_iff]
      cases hs : m.set? q with
      | none => simp [frozen?, hs] at hf
      | some s => rfl
    rw [frozen?, set?_advanced_of_lt m n r (by omega)]
    exact hf
  next_le _ := le_rfl
  past_le := by simp [advanced]
  closed h := absurd h (by simp [hopen])

theorem grows_advance (m : Mailbox) (n : Nat) : m.Grows (m.advance n).2 := by
  rcases advance_cases m n with ⟨h, -⟩ | ⟨hopen, r, h, -⟩
  · rw [h]
    exact Grows.refl m
  · rw [h]
    exact grows_advanced hopen n r

theorem set?_of_past_advanced {n r q : Nat} {s : ClauseSet}
    (hs : (m.advanced n r).past[q]? = some s) :
    q ≤ m.past.size ∧ (m.advanced n r).set? q = some s := by
  obtain ⟨hq, -⟩ := Array.getElem?_eq_some_iff.1 hs
  have hne : ¬ q = (m.advanced n r).past.size := hq.ne
  rw [advanced, Array.size_push] at hq
  exact ⟨Nat.lt_succ_iff.1 hq, by rw [set?, if_neg hne, hs]⟩

/-- An advance keeps the labels. -/
theorem IsLabelled.advanced (h : m.IsLabelled owner workers window) (n r : Nat) :
    (m.advanced n r).IsLabelled owner workers window where
  owner_eq := h.owner_eq
  numWorkers_eq := h.numWorkers_eq
  window_eq := h.window_eq
  size_cursors := h.size_cursors
  label q s hs := by
    rcases Nat.lt_trichotomy q m.past.size with hq | rfl | hq
    · rw [set?_advanced_of_lt m n r hq] at hs
      exact h.label q s hs
    · rw [set?_advanced_size] at hs
      obtain rfl := Option.some.inj hs
      exact h.tail_label
    · have hle : q ≤ (m.advanced n r).past.size := by rw [← set?_isSome_iff, hs]; rfl
      obtain rfl : q = m.past.size + 1 := by
        simp [Mailbox.advanced] at hle
        omega
      rw [set?_advanced_succ] at hs
      obtain rfl := Option.some.inj hs
      exact ⟨h.owner_eq, by rw [← h.tail_label.2]; rfl⟩

namespace IsLog

/-- Nobody has read a set that is not there. -/
theorem readers_succ (h : m.IsLog owner workers window) : m.readers (m.past.size + 1) = ∅ := by
  refine Finset.filter_eq_empty_iff.2 fun c _ hc => ?_
  have := h.next_le c
  omega

/-- A set read by as many as there are consumers has been read by each of them. -/
theorem lt_next_of_le_card (h : m.IsLog owner workers window) {q : Nat}
    (hq : workers - 1 ≤ (m.readers q).card) (howner : owner < workers) {c : Nat} (hc : c < workers)
    (hne : c ≠ owner) : q < m.next c := by
  have hsub : m.readers q ⊆ (Finset.range workers).erase owner := by
    intro w hw
    obtain ⟨hw, hwo, -⟩ := Finset.mem_filter.1 hw
    rw [h.owner_eq] at hwo
    rw [h.numWorkers_eq] at hw
    exact Finset.mem_erase.2 ⟨hwo, hw⟩
  have hcard : ((Finset.range workers).erase owner).card = workers - 1 := by
    rw [Finset.card_erase_of_mem (Finset.mem_range.2 howner), Finset.card_range]
  have heq := Finset.eq_of_subset_of_card_le hsub (by omega)
  have hmem : c ∈ m.readers q := by
    rw [heq]
    exact Finset.mem_erase.2 ⟨hne, Finset.mem_range.2 hc⟩
  exact (Finset.mem_filter.1 hmem).2.2

/-- The reads of every set are counted after an advance. -/
theorem consumed_advanced (h : m.IsLog owner workers window) {n r q : Nat} {s : ClauseSet}
    (hs : (m.advanced n r).set? q = some s) : s.consumed = (m.readers q).card := by
  rcases Nat.lt_trichotomy q m.past.size with hq | rfl | hq
  · rw [set?_advanced_of_lt m n r hq] at hs
    exact h.consumed_eq q s hs
  · rw [set?_advanced_size] at hs
    obtain rfl := Option.some.inj hs
    exact h.consumed_eq _ m.tail (if_pos rfl)
  · have hle : q ≤ (m.advanced n r).past.size := by rw [← set?_isSome_iff, hs]; rfl
    obtain rfl : q = m.past.size + 1 := by
      simp [advanced] at hle
      omega
    rw [set?_advanced_succ] at hs
    obtain rfl := Option.some.inj hs
    rw [h.readers_succ]
    rfl

/-- The past of a mailbox after an advance is complete. -/
theorem past_advanced (h : m.IsLog owner workers window) {n r q : Nat} {s : ClauseSet}
    (hs : (m.advanced n r).past[q]? = some s) :
    s.producer = owner ∧ s.period = q ∧ s.isCompleted = true := by
  obtain ⟨hq, hset⟩ := set?_of_past_advanced hs
  rcases Nat.lt_or_eq_of_le hq with hlt | rfl
  · rw [set?_advanced_of_lt m n r hlt, set?, if_neg (by omega)] at hset
    exact h.past_set q s hset
  · rw [set?_advanced_size] at hset
    obtain rfl := Option.some.inj hset
    exact ⟨h.tail_producer, h.tail_period, rfl⟩

theorem advance (h : m.IsLog owner workers window) (howner : owner < workers) (n : Nat) :
    (m.advance n).2.IsLog owner workers window := by
  rcases advance_cases m n with ⟨hm, -⟩ | ⟨hopen, r, hm, hr⟩
  · rw [hm]
    exact h
  · rw [hm]
    exact
      { owner_eq := h.owner_eq
        numWorkers_eq := h.numWorkers_eq
        window_eq := h.window_eq
        size_cursors := h.size_cursors
        past_set := fun q s hs => h.past_advanced hs
        tail_producer := h.owner_eq
        tail_period := by simp [advanced, ClauseSet.opened, h.tail_period]
        consumed_eq := fun q s hs => h.consumed_advanced hs
        next_le := fun c => by
          have := h.next_le c
          simp only [advanced, next, Array.size_push] at *
          omega
        released_read := by
          intro q hq c hc hne
          rcases hr q hq with hq' | ⟨s, hs, hcons, -⟩
          · exact h.released_read q hq' c hc hne
          · rw [h.consumed_advanced (set?_of_past_advanced hs).2, h.numWorkers_eq] at hcons
            exact h.lt_next_of_le_card hcons howner hc hne
        released_old := by
          intro q hq
          have hsize : (m.advanced n r).past.size = m.past.size + 1 := by simp [advanced]
          rw [hsize]
          rcases hr q hq with hq' | ⟨s, hs, -, hold⟩
          · have := h.released_old q hq'
            omega
          · rw [(h.past_advanced hs).2.1, h.tail_period, h.window_eq] at hold
            omega }

end IsLog

/-! ## Closing -/

theorem close_of_closed (h : m.isClosed = true) (n : Nat) : m.close n = m := by
  rw [close, ClauseSet.complete_of_isCompleted h]

theorem close_of_open (h : m.isClosed = false) (n : Nat) :
    m.close n = { m with tail := { m.tail with nextLength? := some n } } := by
  rw [close, ClauseSet.complete_eq_ok_iff.2 ⟨h, rfl⟩]

@[simp] theorem isClosed_close (m : Mailbox) (n : Nat) : (m.close n).isClosed = true := by
  cases h : m.isClosed with
  | true => rw [close_of_closed h, h]
  | false => rw [close_of_open h]; rfl

@[simp] theorem past_close (m : Mailbox) (n : Nat) : (m.close n).past = m.past := by
  cases h : m.isClosed with
  | true => rw [close_of_closed h]
  | false => rw [close_of_open h]

@[simp] theorem next_close (m : Mailbox) (n c : Nat) : (m.close n).next c = m.next c := by
  cases h : m.isClosed with
  | true => rw [close_of_closed h]
  | false => rw [close_of_open h]; rfl

theorem grows_close (m : Mailbox) (n : Nat) : m.Grows (m.close n) where
  frozen q f hf := by
    cases h : m.isClosed with
    | true => rwa [close_of_closed h]
    | false =>
      have hq : ¬ q = m.past.size := by
        rintro rfl
        rw [frozen?_eq_none_of_open h] at hf
        cases hf
      rw [close_of_open h]
      simpa [frozen?, set?, hq] using hf
  next_le c := by rw [next_close]
  past_le := by rw [past_close]
  closed _ := by rw [isClosed_close, past_close]; exact ⟨rfl, rfl⟩

theorem IsLog.close (h : m.IsLog owner workers window) (n : Nat) :
    (m.close n).IsLog owner workers window := by
  cases hm : m.isClosed with
  | true => rwa [close_of_closed hm]
  | false =>
    rw [close_of_open hm]
    refine { h with consumed_eq := fun q s hs => ?_ }
    unfold set? at hs
    split at hs
    · rename_i hq
      obtain rfl := Option.some.inj hs
      exact h.consumed_eq q m.tail (if_pos hq)
    · rename_i hq
      exact h.consumed_eq q s (by rw [set?, if_neg hq]; exact hs)

/-! ## Changing one set -/

section ModifySet

variable (m : Mailbox) (period : Nat) (f : ClauseSet → ClauseSet)

@[simp] theorem owner_modifySet : (m.modifySet period f).owner = m.owner := by
  unfold modifySet
  split <;> rfl

@[simp] theorem numWorkers_modifySet : (m.modifySet period f).numWorkers = m.numWorkers := by
  unfold modifySet
  split <;> rfl

@[simp] theorem window_modifySet : (m.modifySet period f).window = m.window := by
  unfold modifySet
  split <;> rfl

@[simp] theorem released_modifySet : (m.modifySet period f).released = m.released := by
  unfold modifySet
  split <;> rfl

@[simp] theorem cursors_modifySet : (m.modifySet period f).cursors = m.cursors := by
  unfold modifySet
  split <;> rfl

@[simp] theorem size_past_modifySet : (m.modifySet period f).past.size = m.past.size := by
  unfold modifySet
  split <;> simp

theorem set?_modifySet (q : Nat) : (m.modifySet period f).set? q =
    if q = period then (m.set? q).map f else m.set? q := by
  unfold modifySet set?
  by_cases hp : period = m.past.size
  · subst hp
    by_cases hq : q = m.past.size <;> simp [hq]
  · by_cases hq : q = m.past.size
    · have : ¬ m.past.size = period := fun h => hp h.symm
      simp [hp, hq, this]
    · rw [if_neg hp]
      by_cases hqp : q = period
      · subst hqp
        simp [hq, Array.getElem?_modify]
      · have : ¬ period = q := fun h => hqp h.symm
        simp [hq, hqp, this, Array.getElem?_modify]

end ModifySet

/-- The mailbox after the cursor of `consumer` has moved past a period. -/
def passed (m : Mailbox) (consumer period : Nat) : Mailbox :=
  { m with cursors := m.cursors.set! consumer (period + 1) }

/-- The mailbox after `consumer` has acknowledged its set of a period. -/
def acknowledged (m : Mailbox) (consumer period : Nat) : Mailbox :=
  (m.passed consumer period).modifySet period ClauseSet.countReader

/-- An acknowledgment fails at once, or the cursor moves. -/
theorem acknowledgeSet_cases (m : Mailbox) (consumer producer period : Nat) :
    (∃ f, m.acknowledgeSet consumer producer period = (.error f, m)) ∨
      consumer < m.cursors.size ∧ m.next consumer = period ∧ period + 1 < Word.bound ∧
        m.acknowledgeSet consumer producer period =
          if consumer = producer then (.error (.ownSetConsumed producer), m.passed consumer period)
          else if producer = m.owner then (.ok (), m.acknowledged consumer period)
          else (.ok (), m.passed consumer period) := by
  unfold acknowledgeSet
  split
  · exact .inl ⟨_, rfl⟩
  · rename_i n hn
    have hc : consumer < m.cursors.size ∧ m.next consumer = n := by
      unfold cursor at hn
      unfold next
      split at hn
      · cases hn
      · rename_i k hk
        obtain rfl := Except.ok.inj hn
        exact ⟨(Array.getElem?_eq_some_iff.1 hk).1, by rw [hk]; rfl⟩
    split
    · exact .inl ⟨_, rfl⟩
    · rename_i hp
      obtain rfl : n = period := by simpa using hp
      split
      · exact .inl ⟨_, rfl⟩
      · rename_i next hnext
        obtain ⟨rfl, hword⟩ := Word.add_eq_ok_iff.1 hnext
        exact .inr ⟨hc.1, hc.2, hword, rfl⟩

/-- In its own mailbox a producer is refused after its cursor has moved. -/
theorem acknowledge_own_cases (m : Mailbox) (period : Nat) :
    (∃ f, m.acknowledge m.owner period = (.error f, m)) ∨
      m.next m.owner = period ∧
        m.acknowledge m.owner period = (.error (.ownSetConsumed m.owner), m.passed m.owner period) := by
  rcases m.acknowledgeSet_cases m.owner m.owner period with hf | ⟨-, hnext, -, heq⟩
  · exact .inl hf
  · rw [if_pos rfl] at heq
    exact .inr ⟨hnext, heq⟩

theorem acknowledge_cases {consumer : Nat} (m : Mailbox) (hne : consumer ≠ m.owner) (period : Nat) :
    (∃ f, m.acknowledge consumer period = (.error f, m)) ∨
      consumer < m.cursors.size ∧ m.next consumer = period ∧
        m.acknowledge consumer period = (.ok (), m.acknowledged consumer period) := by
  rcases m.acknowledgeSet_cases consumer m.owner period with hf | ⟨hc, hnext, -, heq⟩
  · exact .inl hf
  · rw [if_neg hne, if_pos rfl] at heq
    exact .inr ⟨hc, hnext, heq⟩

section Fields

variable (m : Mailbox) (consumer period : Nat)

@[simp] theorem owner_acknowledged : (m.acknowledged consumer period).owner = m.owner :=
  owner_modifySet _ _ _

@[simp] theorem numWorkers_acknowledged :
    (m.acknowledged consumer period).numWorkers = m.numWorkers := numWorkers_modifySet _ _ _

@[simp] theorem window_acknowledged : (m.acknowledged consumer period).window = m.window :=
  window_modifySet _ _ _

@[simp] theorem released_acknowledged :
    (m.acknowledged consumer period).released = m.released := released_modifySet _ _ _

theorem cursors_acknowledged :
    (m.acknowledged consumer period).cursors = m.cursors.set! consumer (period + 1) :=
  cursors_modifySet _ _ _

@[simp] theorem size_past_acknowledged :
    (m.acknowledged consumer period).past.size = m.past.size := size_past_modifySet _ _ _

@[simp] theorem isClosed_acknowledged :
    (m.acknowledged consumer period).isClosed = m.isClosed := by
  unfold acknowledged modifySet
  split <;> rfl

end Fields

theorem next_acknowledged {consumer : Nat} (m : Mailbox) (hc : consumer < m.cursors.size)
    (period c : Nat) :
    (m.acknowledged consumer period).next c = if c = consumer then period + 1 else m.next c := by
  rw [next, cursors_acknowledged, next, Array.set!_eq_setIfInBounds, Array.getElem?_setIfInBounds]
  split
  · rename_i h
    subst h
    simp
  · rename_i h
    rw [if_neg (Ne.symm h)]

theorem set?_acknowledged (m : Mailbox) (consumer period q : Nat) :
    (m.acknowledged consumer period).set? q =
      if q = period then (m.set? q).map ClauseSet.countReader else m.set? q :=
  set?_modifySet _ _ _ _

theorem tail_acknowledged (m : Mailbox) (consumer period : Nat) :
    (m.acknowledged consumer period).tail = m.tail ∨
      (m.acknowledged consumer period).tail = m.tail.countReader := by
  unfold acknowledged modifySet
  split
  · exact .inr rfl
  · exact .inl rfl

theorem exists_of_past_acknowledged {consumer period q : Nat} {s : ClauseSet}
    (hs : (m.acknowledged consumer period).past[q]? = some s) :
    ∃ t, m.past[q]? = some t ∧ (s = t ∨ s = t.countReader) := by
  obtain ⟨hq, -⟩ := Array.getElem?_eq_some_iff.1 hs
  rw [size_past_acknowledged] at hq
  have hne : ¬ q = m.past.size := hq.ne
  have hset : (m.acknowledged consumer period).set? q = some s := by
    rw [set?, size_past_acknowledged, if_neg hne, hs]
  rw [set?_acknowledged, set?, if_neg hne] at hset
  split at hset
  · obtain ⟨t, ht, rfl⟩ := Option.map_eq_some_iff.1 hset
    exact ⟨t, ht, .inr rfl⟩
  · exact ⟨s, hset, .inl rfl⟩

theorem contents_acknowledged (m : Mailbox) (consumer period : Nat) :
    (m.acknowledged consumer period).contents = m.contents := by
  refine List.ext_getElem? fun q => ?_
  rw [getElem?_contents, getElem?_contents, set?_acknowledged]
  split
  · simp [Function.comp_def]
  · rfl

/-- Acknowledging changes nothing that a mailbox holds, whether it succeeds or not. -/
theorem contents_acknowledgeSet (m : Mailbox) (consumer producer period : Nat) :
    (m.acknowledgeSet consumer producer period).2.contents = m.contents := by
  rcases m.acknowledgeSet_cases consumer producer period with ⟨f, heq⟩ | ⟨-, -, -, heq⟩
  · rw [heq]
  · rw [heq]
    split
    · rfl
    · split
      · exact contents_acknowledged m consumer period
      · rfl

theorem contents_acknowledge (m : Mailbox) (consumer period : Nat) :
    (m.acknowledge consumer period).2.contents = m.contents :=
  contents_acknowledgeSet m consumer m.owner period

theorem grows_acknowledged {consumer period : Nat} (hc : consumer < m.cursors.size)
    (hnext : m.next consumer = period) : m.Grows (m.acknowledged consumer period) where
  frozen q f hf := by rwa [frozen?_congr (contents_acknowledged m consumer period)]
  next_le c := by
    rw [next_acknowledged m hc]
    split
    · rename_i h
      rw [h, hnext]
      exact Nat.le_succ _
    · exact le_rfl
  past_le := by rw [size_past_acknowledged]
  closed h := by rw [isClosed_acknowledged, size_past_acknowledged]; exact ⟨h, rfl⟩

/-- An acknowledgment adds one reader to the set that is acknowledged. -/
theorem card_readers_acknowledged {consumer period : Nat} (hw : consumer < m.numWorkers)
    (hne : consumer ≠ m.owner) (hc : consumer < m.cursors.size) (hnext : m.next consumer = period)
    (q : Nat) :
    ((m.acknowledged consumer period).readers q).card =
      (m.readers q).card + if q = period then 1 else 0 := by
  unfold readers
  rw [owner_acknowledged, numWorkers_acknowledged]
  split
  · rename_i h
    subst h
    rw [← Finset.card_insert_of_notMem (a := consumer) (by simp [hnext])]
    congr 1
    ext c
    simp only [Finset.mem_filter, Finset.mem_range, Finset.mem_insert, next_acknowledged m hc]
    by_cases hcc : c = consumer
    · simp [hcc, hw, hne]
    · simp [hcc]
  · rename_i h
    rw [Nat.add_zero]
    congr 1
    refine Finset.filter_congr fun c _ => ?_
    rw [next_acknowledged m hc]
    by_cases hcc : c = consumer
    · subst hcc
      simp only [if_true, hnext]
      constructor <;> rintro ⟨h₁, h₂⟩ <;> exact ⟨h₁, by omega⟩
    · rw [if_neg hcc]

theorem IsLog.acknowledged (h : m.IsLog owner workers window) {consumer period : Nat}
    (hc : consumer < workers) (hne : consumer ≠ owner) (hnext : m.next consumer = period)
    (hset : period ≤ m.past.size) :
    (m.acknowledged consumer period).IsLog owner workers window := by
  have hc' : consumer < m.cursors.size := by rw [h.size_cursors]; exact hc
  exact
    { owner_eq := by rw [owner_acknowledged, h.owner_eq]
      numWorkers_eq := by rw [numWorkers_acknowledged, h.numWorkers_eq]
      window_eq := by rw [window_acknowledged, h.window_eq]
      size_cursors := by simpa [cursors_acknowledged] using h.size_cursors
      past_set := by
        intro q s hs
        obtain ⟨t, ht, hst⟩ := exists_of_past_acknowledged hs
        have := h.past_set q t ht
        rcases hst with rfl | rfl <;> exact this
      tail_producer := by
        rcases tail_acknowledged m consumer period with ht | ht <;> rw [ht] <;>
          exact h.tail_producer
      tail_period := by
        rw [size_past_acknowledged]
        rcases tail_acknowledged m consumer period with ht | ht <;> rw [ht] <;>
          exact h.tail_period
      consumed_eq := by
        intro q s hs
        rw [card_readers_acknowledged (by rw [h.numWorkers_eq]; exact hc)
          (by rw [h.owner_eq]; exact hne) hc' hnext]
        rw [set?_acknowledged] at hs
        by_cases hq : q = period
        · rw [if_pos hq] at hs ⊢
          obtain ⟨t, ht, rfl⟩ := Option.map_eq_some_iff.1 hs
          rw [← h.consumed_eq q t ht]
          rfl
        · rw [if_neg hq] at hs ⊢
          exact h.consumed_eq q s hs
      next_le := by
        intro c
        rw [size_past_acknowledged, next_acknowledged m hc']
        split
        · omega
        · exact h.next_le c
      released_read := by
        intro q hq c hcw hco
        rw [released_acknowledged] at hq
        have := h.released_read q hq c hcw hco
        have := (grows_acknowledged hc' hnext).next_le c
        omega
      released_old := by
        intro q hq
        rw [released_acknowledged] at hq
        rw [size_past_acknowledged]
        exact h.released_old q hq }

end Mailbox

end ClauseExchange
