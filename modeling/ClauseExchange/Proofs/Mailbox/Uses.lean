import ClauseExchange.Proofs.ClauseSet.Freezing
import ClauseExchange.Proofs.Mailbox.Retained
import ClauseExchange.Proofs.Mailbox.Session

/-!
# All that can be done with a mailbox

Who holds a mailbox can make calls on it and ask it questions, and can also take one of its sets and
make calls on that. `Mailbox.use` covers all of this, without any discipline: sets may be completed
or acknowledged behind the mailbox's back, sets of another mailbox may be acknowledged here, and uses
that fail do not stop the others.

Little is left of a log then, but the sets stay where they are: `Mailbox.IsLabelled` says that each
tells its owner and its period. This is enough to count periods.

* `IsLabelled.use` says that every use keeps the labels.
* `Mailbox.isLabelled_afterUses` and `Mailbox.use_ne_overflow` say that after any uses the labels
  are right, and that no use overflows a word before very many of them.
-/

namespace ClauseExchange

namespace Mailbox

/-- A use of a mailbox or of one of its sets. -/
inductive Use
  /-- A call on the mailbox. -/
  | call (call : Call)
  /-- To see the retained set of a period. -/
  | lookUp (period : Nat)
  /-- To ask for the next unread period of a worker. -/
  | cursor (worker : Nat)
  /-- To ask for the periods of the retained sets. -/
  | retained
  /-- A call on the set of a period, which may have left the mailbox. -/
  | onSet (period : Nat) (call : ClauseSet.Call)
  /-- To acknowledge a set that another worker produced. -/
  | foreign (consumer producer period : Nat)
  deriving DecidableEq

/-- Whether a use advances the mailbox. -/
def Use.isAdvance : Use → Bool
  | call c => c.isAdvance
  | _ => false

/-- Whether a use is about a set that another worker produced. -/
def Use.isForeign : Use → Bool
  | foreign .. => true
  | _ => false

/-- What a use that does not fail brings. -/
inductive Finding
  /-- There is no such set, so there is nothing to use. -/
  | missing
  /-- The answer to a call on the mailbox. -/
  | answer (answer : Answer)
  /-- A period. -/
  | position (period : Nat)
  /-- A list of periods. -/
  | periods (periods : List Nat)
  /-- The answer to a call on a set. -/
  | ofSet (answer : ClauseSet.Answer)
  deriving DecidableEq

/-- What a use brings, and the mailbox after it. A use that fails may leave something behind. -/
def use (m : Mailbox) : Use → Except Fault Finding × Mailbox
  | .call call =>
    if call.namesSetOf m then
      let (r, m) := m.perform advance call
      (r.map .answer, m)
    else (.ok .missing, m)
  | .lookUp period => (.ok (.answer (.seen (m.lookup period))), m)
  | .cursor worker => ((m.cursor worker).map .position, m)
  | .retained => (.ok (.periods m.retained), m)
  | .onSet period call =>
    match m.set? period with
    | none => (.ok .missing, m)
    | some s =>
      let (r, s) := s.perform call
      (r.map .ofSet, m.modifySet period fun _ => s)
  | .foreign consumer producer period =>
    if producer = m.owner then (.ok .missing, m)
    else
      let (r, m) := m.acknowledgeSet consumer producer period
      (r.map fun _ => .answer .done, m)

/-- The mailbox after some uses, none of which stops the others. -/
def afterUses (m : Mailbox) (uses : List Use) : Mailbox := uses.foldl (fun m u => (m.use u).2) m

/-- What the uses bring. -/
def findings : Mailbox → List Use → List (Except Fault Finding)
  | _, [] => []
  | m, u :: uses => (m.use u).1 :: findings (m.use u).2 uses

theorem use_call (m : Mailbox) (c : Call) : m.use (.call c) =
    if c.namesSetOf m then
      ((m.perform advance c).1.map .answer, (m.perform advance c).2)
    else (.ok .missing, m) := rfl

theorem use_onSet {m : Mailbox} {period : Nat} {s : ClauseSet} (hs : m.set? period = some s)
    (c : ClauseSet.Call) : m.use (.onSet period c) =
      ((s.perform c).1.map .ofSet, m.modifySet period fun _ => (s.perform c).2) := by
  simp only [use, hs]

theorem use_onSet_of_none {m : Mailbox} {period : Nat} (hs : m.set? period = none)
    (c : ClauseSet.Call) : m.use (.onSet period c) = (.ok .missing, m) := by
  simp only [use, hs]

theorem use_foreign {m : Mailbox} {producer : Nat} (hp : producer ≠ m.owner)
    (consumer period : Nat) : m.use (.foreign consumer producer period) =
      ((m.acknowledgeSet consumer producer period).1.map fun _ => .answer .done,
        (m.acknowledgeSet consumer producer period).2) := by
  simp only [use, if_neg hp]

theorem use_foreign_of_own {m : Mailbox} {producer : Nat} (hp : producer = m.owner)
    (consumer period : Nat) : m.use (.foreign consumer producer period) = (.ok .missing, m) := by
  simp only [use, if_pos hp]

theorem afterUses_concat (m : Mailbox) (uses : List Use) (u : Use) :
    m.afterUses (uses ++ [u]) = ((m.afterUses uses).use u).2 := by
  rw [afterUses, List.foldl_append]
  rfl

variable {m : Mailbox} {owner workers window : Nat}

/-- No call on a set changes its label. -/
theorem label_perform (s : ClauseSet) (call : ClauseSet.Call) :
    (s.perform call).2.producer = s.producer ∧ (s.perform call).2.period = s.period := by
  cases call with
  | append c =>
    simp only [ClauseSet.perform, ClauseSet.append]
    split <;> exact ⟨rfl, rfl⟩
  | complete n =>
    simp only [ClauseSet.perform, ClauseSet.complete]
    split <;> exact ⟨rfl, rfl⟩
  | acknowledge w =>
    simp only [ClauseSet.perform, ClauseSet.acknowledge]
    split <;> exact ⟨rfl, rfl⟩
  | ask q => exact ⟨rfl, rfl⟩

namespace IsLabelled

theorem modifySet (h : m.IsLabelled owner workers window) {period : Nat}
    {f : ClauseSet → ClauseSet} (hf : ∀ s, m.set? period = some s →
      (f s).producer = s.producer ∧ (f s).period = s.period) :
    (m.modifySet period f).IsLabelled owner workers window where
  owner_eq := by rw [owner_modifySet, h.owner_eq]
  numWorkers_eq := by rw [numWorkers_modifySet, h.numWorkers_eq]
  window_eq := by rw [window_modifySet, h.window_eq]
  size_cursors := by rw [cursors_modifySet, h.size_cursors]
  label q s hs := by
    rw [set?_modifySet] at hs
    split at hs
    · rename_i hq
      obtain ⟨t, ht, rfl⟩ := Option.map_eq_some_iff.1 hs
      rw [hq] at ht
      rw [(hf t ht).1, (hf t ht).2, hq]
      exact h.label period t ht
    · exact h.label q s hs

/-- What is done to the newest set only. -/
theorem setTail (h : m.IsLabelled owner workers window) {s : ClauseSet}
    (hs : s.producer = m.tail.producer ∧ s.period = m.tail.period) :
    ({ m with tail := s } : Mailbox).IsLabelled owner workers window := by
  have hsame : ({ m with tail := s } : Mailbox) = m.modifySet m.past.size fun _ => s := by
    rw [Mailbox.modifySet, if_pos rfl]
  rw [hsame]
  refine h.modifySet fun t ht => ?_
  obtain rfl := Option.some.inj ((if_pos rfl).symm.trans ht)
  exact hs

theorem setCursors (h : m.IsLabelled owner workers window) {cursors : Array Nat}
    (hsize : cursors.size = m.cursors.size) :
    ({ m with cursors } : Mailbox).IsLabelled owner workers window :=
  ⟨h.owner_eq, h.numWorkers_eq, h.window_eq, hsize.trans h.size_cursors, h.label⟩

theorem acknowledgeSet (h : m.IsLabelled owner workers window) (consumer producer period : Nat) :
    (m.acknowledgeSet consumer producer period).2.IsLabelled owner workers window := by
  have hpassed : (m.passed consumer period).IsLabelled owner workers window :=
    h.setCursors (by simp)
  rcases m.acknowledgeSet_cases consumer producer period with ⟨f, heq⟩ | ⟨-, -, -, heq⟩
  · rw [heq]
    exact h
  · rw [heq]
    split
    · exact hpassed
    · split
      · exact hpassed.modifySet fun _ _ => ⟨rfl, rfl⟩
      · exact hpassed

theorem perform (h : m.IsLabelled owner workers window) (call : Call) :
    (m.perform Mailbox.advance call).2.IsLabelled owner workers window := by
  cases call with
  | append c =>
    show (m.append c).2.IsLabelled owner workers window
    rw [append_eq]
    split
    · exact h
    · exact h.setTail ⟨rfl, rfl⟩
  | advance n =>
    show (m.advance n).2.IsLabelled owner workers window
    rcases advance_cases m n with ⟨hm, -⟩ | ⟨-, r, hm, -⟩
    · rw [hm]
      exact h
    · rw [hm]
      exact h.advanced n r
  | close n =>
    show (m.close n).IsLabelled owner workers window
    cases hm : m.isClosed with
    | true => rwa [close_of_closed hm]
    | false =>
      rw [close_of_open hm]
      exact h.setTail ⟨rfl, rfl⟩
  | acknowledge consumer period => exact h.acknowledgeSet consumer m.owner period
  | tail | isClosed | fetch => exact h

/-- Every use keeps the labels. -/
theorem use (h : m.IsLabelled owner workers window) (u : Use) :
    (m.use u).2.IsLabelled owner workers window := by
  cases u with
  | call c =>
    rw [use_call]
    split
    · exact h.perform c
    · exact h
  | onSet period c =>
    cases hs : m.set? period with
    | none =>
      rw [use_onSet_of_none hs]
      exact h
    | some s =>
      rw [use_onSet hs]
      refine h.modifySet fun t ht => ?_
      obtain rfl := Option.some.inj (hs.symm.trans ht)
      exact label_perform s c
  | foreign consumer producer period =>
    by_cases hp : producer = m.owner
    · rw [use_foreign_of_own hp]
      exact h
    · rw [use_foreign hp]
      exact h.acknowledgeSet consumer producer period
  | lookUp | cursor | retained => exact h

end IsLabelled

/-- Only an advance adds a set. -/
theorem size_past_use (m : Mailbox) (u : Use) :
    (m.use u).2.past.size ≤ m.past.size + if u.isAdvance then 1 else 0 := by
  cases u with
  | call c =>
    rw [use_call]
    split
    · exact size_past_perform m c
    · exact Nat.le_add_right _ _
  | onSet period c =>
    cases hs : m.set? period with
    | none =>
      rw [use_onSet_of_none hs]
      exact Nat.le_add_right _ _
    | some s =>
      rw [use_onSet hs]
      exact (size_past_modifySet _ _ _).le
  | foreign consumer producer period =>
    by_cases hp : producer = m.owner
    · rw [use_foreign_of_own hp]
      exact Nat.le_add_right _ _
    · rw [use_foreign hp, size_past_congr (contents_acknowledgeSet m consumer producer period)]
      exact Nat.le_add_right _ _
  | lookUp | cursor | retained => exact Nat.le_add_right _ _

/-- An acknowledgment moves no cursor, or the one that stands before the set that is acknowledged. -/
theorem next_acknowledgeSet (m : Mailbox) (consumer producer period w : Nat) :
    (m.acknowledgeSet consumer producer period).2.next w = m.next w ∨
      m.next w = period ∧ (m.acknowledgeSet consumer producer period).2.next w = period + 1 := by
  rcases m.acknowledgeSet_cases consumer producer period with ⟨f, heq⟩ | ⟨hc, hnext, -, heq⟩
  · exact .inl (by rw [heq])
  · have hmoved : (m.acknowledgeSet consumer producer period).2.next w =
        (m.acknowledged consumer period).next w := by
      rw [heq, next, next, cursors_acknowledged]
      split
      · rfl
      · split
        · rw [cursors_acknowledged]
        · rfl
    rw [hmoved, next_acknowledged m hc]
    split
    · rename_i hw
      exact .inr ⟨by rw [hw, hnext], rfl⟩
    · exact .inl rfl

/-- A cursor moves one period at a time. -/
theorem next_use_le (m : Mailbox) (u : Use) (w : Nat) : (m.use u).2.next w ≤ m.next w + 1 := by
  have hkept {m' : Mailbox} (h : m'.next w = m.next w) : m'.next w ≤ m.next w + 1 := by omega
  have hack (consumer producer period : Nat) :
      (m.acknowledgeSet consumer producer period).2.next w ≤ m.next w + 1 := by
    have := m.next_acknowledgeSet consumer producer period w
    omega
  cases u with
  | call c =>
    rw [use_call]
    split
    · cases c with
      | append c => exact hkept (next_append m c w)
      | advance n => exact hkept (next_advance m n w)
      | close n => exact hkept (next_close m n w)
      | acknowledge consumer period => exact hack consumer m.owner period
      | tail | isClosed | fetch => exact hkept rfl
    · exact hkept rfl
  | onSet period c =>
    cases hs : m.set? period with
    | none =>
      rw [use_onSet_of_none hs]
      exact hkept rfl
    | some s =>
      rw [use_onSet hs]
      exact hkept (by rw [next, cursors_modifySet, next])
  | foreign consumer producer period =>
    by_cases hp : producer = m.owner
    · rw [use_foreign_of_own hp]
      exact hkept rfl
    · rw [use_foreign hp]
      exact hack consumer producer period
  | lookUp | cursor | retained => exact hkept rfl

/-- After any uses the labels are right, there are no more sets than advances but one, and no cursor
has moved more often than there were uses. -/
theorem isLabelled_afterUses (hm : create owner workers window = .ok m) (uses : List Use) :
    (m.afterUses uses).IsLabelled owner workers window ∧
      (m.afterUses uses).past.size ≤ uses.countP Use.isAdvance ∧
      ∀ w, (m.afterUses uses).next w ≤ uses.length := by
  induction uses using List.reverseRecOn with
  | nil =>
    rw [create_eq_fresh hm]
    exact ⟨(isLog_fresh _ _ _).isLabelled, Nat.zero_le _, fun w => (next_fresh _ _ _ w).le⟩
  | append_singleton uses u ih =>
    obtain ⟨hlabelled, hsize, hnext⟩ := ih
    rw [afterUses_concat]
    refine ⟨hlabelled.use u, ?_, fun w => ?_⟩
    · have := size_past_use (m.afterUses uses) u
      rw [List.countP_append, List.countP_singleton]
      omega
    · rw [List.length_append, List.length_singleton]
      exact (next_use_le _ u w).trans (Nat.succ_le_succ (hnext w))

/-! ## How uses fail -/

theorem firstKept_error {past : Array ClauseSet} {consumers window last period : Nat} {f : Fault}
    (h : (firstKept past consumers window last period).2 = .error f) : f = .overflow := by
  fun_induction firstKept past consumers window last period with
  | case2 period hp s _ f' hf =>
    obtain rfl := Except.error.inj h
    exact (Word.add_eq_error_iff.1 hf).1
  | case4 _ _ _ _ _ _ _ ih => exact ih h
  | case1 | case3 | case5 => cases h

/-- An advance fails on a closed mailbox; on an open one only a word can overflow. -/
theorem advance_eq_error {n : Nat} {f : Fault} (h : (m.advance n).1 = .error f) :
    m.isClosed = true ∧ f = .advanceAfterClose m.owner ∨ m.isClosed = false ∧ f = .overflow := by
  unfold advance at h
  cases hm : m.isClosed with
  | true =>
    rw [ClauseSet.complete_of_isCompleted hm] at h
    exact .inl ⟨rfl, (Except.error.inj h).symm⟩
  | false =>
    refine .inr ⟨rfl, ?_⟩
    rw [ClauseSet.complete_of_open hm] at h
    dsimp only at h
    split at h
    · rename_i f' hf
      obtain rfl := Except.error.inj h
      exact (Word.add_eq_error_iff.1 hf).1
    · unfold release at h
      dsimp only at h
      split at h
      · rename_i f' hf
        obtain rfl := Except.error.inj h
        unfold Word.sub at hf
        split at hf <;> cases hf
        rfl
      · dsimp only at h
        cases hkept : (firstKept (m.past.push { m.tail with nextLength? := some n }) ‹Nat› m.window
            m.tail.period m.released).2 with
        | ok _ =>
          rw [hkept] at h
          cases h
        | error f' =>
          rw [hkept] at h
          obtain rfl := Except.error.inj h
          exact firstKept_error hkept

theorem append_eq_error_iff {c : Clause} {f : Fault} : (m.append c).1 = .error f ↔
    m.isClosed = true ∧ f = .appendToCompleted m.tail.producer m.tail.period := by
  rw [append_eq]
  split
  · simp [*, eq_comm]
  · simp [*]

theorem cursor_of_lt {w : Nat} (hw : w < m.cursors.size) : m.cursor w = .ok (m.next w) := by
  simp [cursor, next, hw]

theorem cursor_eq_error_iff {w : Nat} {f : Fault} :
    m.cursor w = .error f ↔ m.cursors.size ≤ w ∧ f = .indexOutOfBounds := by
  rcases Nat.lt_or_ge w m.cursors.size with hw | hw
  · simp [cursor_of_lt hw, Nat.not_le.2 hw]
  · simp [cursor, hw, eq_comm]

theorem fetch_eq_error_iff {w period : Nat} {f : Fault} : (m.fetch w period) = .error f ↔
    w = m.owner ∧ f = .fetchFromSelf m.owner ∨
      w ≠ m.owner ∧ m.cursors.size ≤ w ∧ f = .indexOutOfBounds := by
  unfold fetch
  by_cases hw : w = m.owner
  · simp [hw, eq_comm]
  · rw [if_neg hw]
    cases hcursor : m.cursor w with
    | ok next =>
      have hlt : w < m.cursors.size := by
        by_contra hle
        rw [cursor_eq_error_iff.2 ⟨Nat.not_lt.1 hle, rfl⟩] at hcursor
        cases hcursor
      simp [Except.map, hw, Nat.not_le.2 hlt]
    | error f' =>
      obtain ⟨hle, rfl⟩ := cursor_eq_error_iff.1 hcursor
      simp [Except.map, hw, hle, eq_comm]

/-- A producer's own set is refused only after the cursor has been moved. -/
theorem acknowledgeSet_eq_error_iff {w producer period : Nat} {f : Fault} :
    (m.acknowledgeSet w producer period).1 = .error f ↔
      m.cursors.size ≤ w ∧ f = .indexOutOfBounds ∨
      w < m.cursors.size ∧
        (m.next w ≠ period ∧ f = .acknowledgedOutOfOrder w period m.owner ∨
          m.next w = period ∧ Word.bound ≤ period + 1 ∧ f = .overflow ∨
          m.next w = period ∧ period + 1 < Word.bound ∧ w = producer ∧
            f = .ownSetConsumed producer) := by
  unfold acknowledgeSet
  rcases Nat.lt_or_ge w m.cursors.size with hw | hw
  · rw [cursor_of_lt hw]
    dsimp only
    by_cases hnext : m.next w = period
    · rw [if_neg (not_not.2 hnext), hnext]
      rcases Nat.lt_or_ge (period + 1) Word.bound with hword | hword
      · rw [Word.add_eq_ok_iff.2 ⟨rfl, hword⟩]
        dsimp only
        by_cases howner : w = producer
        · subst howner
          simp [hw, hword, Nat.not_le.2 hw, Nat.not_le.2 hword, eq_comm]
        · rw [if_neg howner]
          split <;> simp [howner, hw, Nat.not_le.2 hw, Nat.not_le.2 hword]
      · rw [Word.add_eq_error_iff.2 ⟨rfl, hword⟩]
        simp [hw, hword, Nat.not_le.2 hw, Nat.not_lt.2 hword, eq_comm]
    · rw [if_pos hnext]
      simp [hw, hnext, Nat.not_le.2 hw, eq_comm]
  · rw [cursor_eq_error_iff.2 ⟨hw, rfl⟩]
    simp [hw, Nat.not_lt.2 hw, eq_comm]

/-- While periods can be counted, also those that have still to fall out of the window, no use
overflows a word. -/
theorem IsLabelled.use_ne_overflow (h : m.IsLabelled owner workers window) (howner : owner < workers)
    (hword : m.past.size + window + 1 < Word.bound) (u : Use)
    (hforeign : u.isForeign = true → ∀ w, m.next w + 1 < Word.bound) :
    (m.use u).1 ≠ .error .overflow := by
  intro hover
  cases u with
  | call c =>
    rw [use_call] at hover
    split at hover
    · rename_i hnames
      have hover := map_eq_error_iff.1 hover
      cases c with
      | append c => cases (append_eq_error_iff.1 (map_eq_error_iff.1 hover)).2
      | advance n =>
        have hover : (m.advance n).1 = .error .overflow := map_eq_error_iff.1 hover
        rcases advance_eq_error hover with ⟨-, hf⟩ | ⟨hopen, -⟩
        · cases hf
        · rw [h.advance_ok howner hopen hword n] at hover
          cases hover
      | fetch w period =>
        rcases fetch_eq_error_iff.1 (map_eq_error_iff.1 hover) with ⟨-, hf⟩ | ⟨-, -, hf⟩ <;> cases hf
      | acknowledge w period =>
        have hperiod : period ≤ m.past.size := set?_isSome_iff.1 hnames
        rcases acknowledgeSet_eq_error_iff.1 (map_eq_error_iff.1 hover) with
          ⟨-, hf⟩ | ⟨-, ⟨-, hf⟩ | ⟨-, hlarge, -⟩ | ⟨-, -, -, hf⟩⟩
        · cases hf
        · cases hf
        · omega
        · cases hf
      | tail | close | isClosed => cases hover
    · cases hover
  | lookUp | retained => cases hover
  | cursor w => cases (cursor_eq_error_iff.1 (map_eq_error_iff.1 hover)).2
  | onSet period c =>
    cases hs : m.set? period with
    | none =>
      rw [use_onSet_of_none hs] at hover
      cases hover
    | some s =>
      rw [use_onSet hs] at hover
      rcases ClauseSet.perform_eq_error_iff.1 (map_eq_error_iff.1 hover) with
        ⟨-, ⟨-, hf⟩ | ⟨-, hf⟩⟩ | ⟨-, hf⟩ <;> cases hf
  | foreign w producer period =>
    by_cases hp : producer = m.owner
    · rw [use_foreign_of_own hp] at hover
      cases hover
    · rw [use_foreign hp] at hover
      rcases acknowledgeSet_eq_error_iff.1 (map_eq_error_iff.1 hover) with
        ⟨-, hf⟩ | ⟨-, ⟨-, hf⟩ | ⟨hnext, hlarge, -⟩ | ⟨-, -, -, hf⟩⟩
      · cases hf
      · cases hf
      · have := hforeign rfl w
        omega
      · cases hf

section Counting

variable {uses : List Use}

theorem size_afterUses_lt (hm : create owner workers window = .ok m)
    (hadvances : uses.countP Use.isAdvance < 2 ^ 63) :
    (m.afterUses uses).past.size + window + 1 < Word.bound := by
  have hsize := (isLabelled_afterUses hm uses).2.1
  have hwindow := window_lt_of_create hm
  rw [Word.bound]
  omega

/-- No use overflows a word before the mailbox has been advanced `2 ^ 63` times; for the acknowledgment
of another worker's set, before it has been used that often. -/
theorem use_ne_overflow (hm : create owner workers window = .ok m) (howner : owner < workers)
    (hadvances : uses.countP Use.isAdvance < 2 ^ 63) (u : Use)
    (hforeign : u.isForeign = true → uses.length < 2 ^ 63) :
    ((m.afterUses uses).use u).1 ≠ .error .overflow := by
  obtain ⟨hlabelled, -, hnext⟩ := isLabelled_afterUses hm uses
  refine hlabelled.use_ne_overflow howner (size_afterUses_lt hm hadvances) u fun hu w => ?_
  have := hforeign hu
  have := hnext w
  rw [Word.bound]
  omega

/-- Until then an open mailbox can be advanced. -/
theorem advance_afterUses (hm : create owner workers window = .ok m) (howner : owner < workers)
    (hadvances : uses.countP Use.isAdvance < 2 ^ 63) (hopen : (m.afterUses uses).isClosed = false)
    (n : Nat) : ((m.afterUses uses).advance n).1 = .ok ((m.afterUses uses).past.size + 1) :=
  (isLabelled_afterUses hm uses).1.advance_ok howner hopen (size_afterUses_lt hm hadvances) n

end Counting

end Mailbox

end ClauseExchange
