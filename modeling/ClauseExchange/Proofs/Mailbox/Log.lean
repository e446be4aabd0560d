import ClauseExchange.Mailbox
import ClauseExchange.Proofs.Failing
import Mathlib.Data.Finset.Range
import Mathlib.Data.Finset.Card

/-!
# A mailbox is a log with cursors

The sets of a mailbox are numbered by their periods, all are complete but the newest, and a set
counts exactly the consumers whose cursor has passed it. `Mailbox.IsLog` collects these facts, and
every operation of the owner and of its consumers keeps them.

* `Mailbox.contents` is what the sets hold, without who has read them.
* `Mailbox.frozen?` is the part of it that can never change: `IsLog.frozen?_isSome_iff` says which
  sets have one.
* `IsLog.fetch_eq` says what a consumer gets: no set that it has still to read has left.
-/

namespace ClauseExchange

namespace ClauseSet

/-- What a set holds: its clauses, and its candidate once it is complete. -/
def content (s : ClauseSet) : List Clause × Option Nat := (s.appended.toList, s.nextLength?)

@[simp] theorem content_countReader (s : ClauseSet) : s.countReader.content = s.content := rfl

/-- The clauses and the candidate of a complete set. -/
def frozen? (s : ClauseSet) : Option (List Clause × Nat) :=
  s.nextLength?.map fun n => (s.appended.toList, n)

theorem isSome_frozen? (s : ClauseSet) : s.frozen?.isSome = s.isCompleted := by
  simp [frozen?, isCompleted]

theorem frozen?_congr {s t : ClauseSet} (h : s.content = t.content) : s.frozen? = t.frozen? := by
  simp only [content, Prod.mk.injEq] at h
  rw [frozen?, frozen?, h.1, h.2]

end ClauseSet

namespace Mailbox

/-- The next unread period of a worker, `0` for a worker that does not exist. -/
def next (m : Mailbox) (consumer : Nat) : Nat := m.cursors[consumer]?.getD 0

/-- The number of complete sets. -/
def completed (m : Mailbox) : Nat := m.past.size + if m.isClosed then 1 else 0

/-- What the sets hold, from period `0` on. -/
def contents (m : Mailbox) : List (List Clause × Option Nat) :=
  (m.past.toList ++ [m.tail]).map (·.content)

/-- The clauses and the candidate of the set of a period, once it is complete. -/
def frozen? (m : Mailbox) (period : Nat) : Option (List Clause × Nat) :=
  (m.set? period).bind (·.frozen?)

/-- The workers other than the owner that have read the set of a period. -/
def readers (m : Mailbox) (period : Nat) : Finset Nat :=
  (Finset.range m.numWorkers).filter fun c => c ≠ m.owner ∧ period < m.next c

theorem completed_le (m : Mailbox) : m.completed ≤ m.past.size + 1 := by
  unfold completed
  split <;> omega

@[simp] theorem length_contents (m : Mailbox) : m.contents.length = m.past.size + 1 := by
  simp [contents]

theorem set?_isSome_iff {m : Mailbox} {q : Nat} : (m.set? q).isSome ↔ q ≤ m.past.size := by
  unfold set?
  split
  · simp_all
  · simp
    omega

theorem getElem?_contents (m : Mailbox) (q : Nat) :
    m.contents[q]? = (m.set? q).map (·.content) := by
  unfold contents set?
  rw [List.getElem?_map, List.getElem?_append]
  split
  · rw [if_neg (by simp at *; omega)]
    simp
  · simp at *
    split
    · simp_all
    · rw [List.getElem?_eq_none (by simp; omega), Array.getElem?_eq_none (by omega)]

theorem contents_eq_iff {m n : Mailbox} :
    m.contents = n.contents ↔ m.past.toList.map (·.content) = n.past.toList.map (·.content) ∧
      m.tail.content = n.tail.content := by
  simp [contents]

theorem size_past_congr {m n : Mailbox} (h : m.contents = n.contents) :
    m.past.size = n.past.size := by
  simpa using congrArg List.length h

theorem isClosed_congr {m n : Mailbox} (h : m.contents = n.contents) :
    m.isClosed = n.isClosed := by
  have := congrArg Prod.snd (contents_eq_iff.1 h).2
  rw [isClosed, isClosed, ClauseSet.isCompleted, ClauseSet.isCompleted]
  exact congrArg Option.isSome this

theorem completed_congr {m n : Mailbox} (h : m.contents = n.contents) :
    m.completed = n.completed := by
  rw [completed, completed, size_past_congr h, isClosed_congr h]

theorem frozen?_of_set? {m : Mailbox} {q : Nat} {s : ClauseSet} (hs : m.set? q = some s) :
    m.frozen? q = s.frozen? := by
  rw [frozen?, hs, Option.bind_some]

theorem frozen?_congr {m n : Mailbox} (h : m.contents = n.contents) (q : Nat) :
    m.frozen? q = n.frozen? q := by
  have hq : (m.set? q).map (·.content) = (n.set? q).map (·.content) := by
    rw [← getElem?_contents, ← getElem?_contents, h]
  cases hm : m.set? q with
  | none => simp_all [frozen?]
  | some s =>
    obtain ⟨t, hn, hst⟩ : ∃ t, n.set? q = some t ∧ t.content = s.content := by
      simpa [hm, eq_comm] using hq
    rw [frozen?_of_set? hm, frozen?_of_set? hn, ClauseSet.frozen?_congr hst]

/-- Every set of the mailbox of worker `owner` tells its owner and its period. -/
structure IsLabelled (m : Mailbox) (owner workers window : Nat) : Prop where
  owner_eq : m.owner = owner
  numWorkers_eq : m.numWorkers = workers
  window_eq : m.window = window
  size_cursors : m.cursors.size = workers
  label : ∀ (q : Nat) (s : ClauseSet), m.set? q = some s → s.producer = owner ∧ s.period = q

theorem IsLabelled.tail_label {m : Mailbox} {owner workers window : Nat}
    (h : m.IsLabelled owner workers window) :
    m.tail.producer = owner ∧ m.tail.period = m.past.size := h.label m.past.size m.tail (if_pos rfl)

/-- A mailbox that is the log of worker `owner` among `workers`. -/
structure IsLog (m : Mailbox) (owner workers window : Nat) : Prop where
  owner_eq : m.owner = owner
  numWorkers_eq : m.numWorkers = workers
  window_eq : m.window = window
  size_cursors : m.cursors.size = workers
  /-- All sets but the newest are complete, and numbered without a gap. -/
  past_set : ∀ (q : Nat) (s : ClauseSet), m.past[q]? = some s →
    s.producer = owner ∧ s.period = q ∧ s.isCompleted = true
  tail_producer : m.tail.producer = owner
  tail_period : m.tail.period = m.past.size
  /-- A set counts the consumers that have read it. -/
  consumed_eq : ∀ (q : Nat) (s : ClauseSet), m.set? q = some s → s.consumed = (m.readers q).card
  next_le : ∀ c, m.next c ≤ m.past.size + 1
  /-- A set leaves only when all consumers have read it, -/
  released_read : ∀ q < m.released, ∀ c < workers, c ≠ owner → q < m.next c
  /-- and when it has fallen out of the owner's window. -/
  released_old : ∀ q < m.released, q + window + 1 < m.past.size

namespace IsLog

variable {m : Mailbox} {owner workers window : Nat}

theorem set?_spec (h : m.IsLog owner workers window) {q : Nat} {s : ClauseSet}
    (hs : m.set? q = some s) : s.producer = owner ∧ s.period = q := by
  unfold set? at hs
  split at hs
  · obtain rfl := Option.some.inj hs
    exact ⟨h.tail_producer, by rw [h.tail_period]; omega⟩
  · exact ⟨(h.past_set q s hs).1, (h.past_set q s hs).2.1⟩

theorem isLabelled (h : m.IsLog owner workers window) : m.IsLabelled owner workers window where
  owner_eq := h.owner_eq
  numWorkers_eq := h.numWorkers_eq
  window_eq := h.window_eq
  size_cursors := h.size_cursors
  label _ _ hs := h.set?_spec hs

theorem set?_completed_iff (h : m.IsLog owner workers window) {q : Nat} {s : ClauseSet}
    (hs : m.set? q = some s) : s.isCompleted = true ↔ q < m.completed := by
  unfold set? at hs
  unfold completed isClosed
  split at hs
  · obtain rfl := Option.some.inj hs
    split <;> simp_all
  · obtain ⟨hq, -⟩ := Array.getElem?_eq_some_iff.1 hs
    have := (h.past_set q s hs).2.2
    simp only [this, true_iff]
    omega

theorem frozen?_isSome_iff (h : m.IsLog owner workers window) {q : Nat} :
    (m.frozen? q).isSome ↔ q < m.completed := by
  cases hs : m.set? q with
  | some s => rw [frozen?_of_set? hs, ClauseSet.isSome_frozen?, h.set?_completed_iff hs]
  | none =>
    have : ¬ q ≤ m.past.size := by rw [← set?_isSome_iff, hs]; simp
    have := m.completed_le
    rw [frozen?, hs, Option.bind_none, Option.isSome_none]
    simp only [Bool.false_eq_true, false_iff]
    omega

/-- A consumer's next set is still in the mailbox. -/
theorem released_le_next (h : m.IsLog owner workers window) {c : Nat} (hc : c < workers)
    (hne : c ≠ owner) : m.released ≤ m.next c := by
  by_contra hlt
  exact lt_irrefl _ (h.released_read (m.next c) (by omega) c hc hne)

theorem cursor_eq (h : m.IsLog owner workers window) {c : Nat} (hc : c < workers) :
    m.cursor c = .ok (m.next c) := by
  have hc' : c < m.cursors.size := by rw [h.size_cursors]; exact hc
  simp [cursor, next, hc']

/-- What a consumer fetches depends on its cursor and on the sets alone. -/
theorem fetch_eq (h : m.IsLog owner workers window) {c : Nat} (hc : c < workers) (hne : c ≠ owner)
    (period : Nat) :
    m.fetch c period = .ok (if period < m.next c then none else m.set? (m.next c)) := by
  have hrel := h.released_le_next hc hne
  rw [fetch, if_neg (by rw [h.owner_eq]; exact hne), h.cursor_eq hc]
  simp only [Except.map, lookup]
  rw [if_neg (by omega : ¬ m.next c < m.released)]

/-- The owner finds its own sets as long as they lie in its window. -/
theorem lookup_own (h : m.IsLog owner workers window) {q : Nat}
    (hq : m.past.size ≤ q + window + 1) : m.lookup q = m.set? q := by
  rw [lookup, if_neg]
  intro hlt
  have := h.released_old q hlt
  omega

end IsLog

/-! ## The beginning -/

/-- A mailbox that nobody has used. -/
def fresh (owner numWorkers window : Nat) : Mailbox where
  owner := owner
  numWorkers := numWorkers
  window := window
  tail := .opened owner 0
  cursors := Array.replicate numWorkers 0

theorem create_eq_fresh {owner numWorkers window : Nat} {m : Mailbox}
    (h : create owner numWorkers window = .ok m) : m = fresh owner numWorkers window := by
  unfold create at h
  obtain ⟨_, -, h⟩ := exists_of_bind_eq_ok h
  obtain ⟨_, -, h⟩ := exists_of_bind_eq_ok h
  obtain ⟨_, -, h⟩ := exists_of_bind_eq_ok h
  exact (Except.ok.inj h).symm

@[simp] theorem next_fresh (owner numWorkers window i : Nat) :
    (fresh owner numWorkers window).next i = 0 := by
  unfold next fresh
  rw [Array.getElem?_replicate]
  split <;> rfl

theorem isLog_fresh (owner numWorkers window : Nat) :
    (fresh owner numWorkers window).IsLog owner numWorkers window where
  owner_eq := rfl
  numWorkers_eq := rfl
  window_eq := rfl
  size_cursors := Array.size_replicate
  past_set q s hs := by simp [fresh] at hs
  tail_producer := rfl
  tail_period := rfl
  consumed_eq q s hs := by
    have hq : q = 0 := by
      have := set?_isSome_iff.1 (by rw [hs]; rfl : ((fresh owner numWorkers window).set? q).isSome)
      simpa [fresh] using this
    subst hq
    obtain rfl := Option.some.inj hs
    have hnone : (fresh owner numWorkers window).readers 0 = ∅ :=
      Finset.filter_eq_empty_iff.2 fun c _ hc => by rw [next_fresh] at hc; omega
    rw [hnone, Finset.card_empty]
    rfl
  next_le c := by rw [next_fresh]; exact Nat.zero_le _
  released_read q hq := absurd hq (Nat.not_lt_zero q)
  released_old q hq := absurd hq (Nat.not_lt_zero q)

end Mailbox

end ClauseExchange
