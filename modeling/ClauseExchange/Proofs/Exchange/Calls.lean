import ClauseExchange.Coordinator
import ClauseExchange.Proofs.Mailbox.Operations

/-!
# Calls on the coordinator

What one call of one worker does to the mailboxes. `Coordinator.Effect w c c'` lists the
possibilities: a worker adds to its own mailbox, or acknowledges a set in another one. From it
follow what every call keeps (`Effect.isLog`, `Effect.grows`) and what the calls of the others leave
alone (`Effect.contents_eq`, `Effect.next_eq`).
-/

namespace ClauseExchange

namespace Coordinator

/-- The mailbox of a worker, an empty one for a worker that does not exist. -/
def box (c : Coordinator) (v : Nat) : Mailbox := c.mailboxes[v]?.getD default

/-- Replaces the mailbox of a worker. -/
def setBox (c : Coordinator) (v : Nat) (m : Mailbox) : Coordinator :=
  { c with mailboxes := c.mailboxes.setIfInBounds v m }

/-- The clauses and the candidate of a complete set. -/
def frozen? (c : Coordinator) (producer period : Nat) : Option (List Clause × Nat) :=
  (c.set? producer period).bind (·.frozen?)

@[simp] theorem numWorkers_setBox (c : Coordinator) (v : Nat) (m : Mailbox) :
    (c.setBox v m).numWorkers = c.numWorkers := by simp [setBox, numWorkers]

theorem getElem?_mailboxes {c : Coordinator} {v : Nat} (hv : v < c.numWorkers) :
    c.mailboxes[v]? = some (c.box v) := by
  have hv' : v < c.mailboxes.size := hv
  simp [box, hv']

theorem box_setBox {c : Coordinator} {v : Nat} (hv : v < c.numWorkers) (m : Mailbox) (u : Nat) :
    (c.setBox v m).box u = if u = v then m else c.box u := by
  have hv' : v < c.mailboxes.size := hv
  unfold box setBox
  rw [Array.getElem?_setIfInBounds]
  by_cases h : u = v
  · subst h
    simp [hv']
  · rw [if_neg h, if_neg (Ne.symm h)]

@[simp] theorem box_setBox_self {c : Coordinator} {v : Nat} (hv : v < c.numWorkers) (m : Mailbox) :
    (c.setBox v m).box v = m := by rw [box_setBox hv, if_pos rfl]

theorem setBox_of_eq {c : Coordinator} {v : Nat} {m : Mailbox}
    (h : v < c.numWorkers → m = c.box v) : c.setBox v m = c := by
  unfold setBox
  congr
  by_cases hv : v < c.mailboxes.size
  · rw [h hv]
    simp [box, hv, Array.setIfInBounds]
  · simp [Array.setIfInBounds, hv]

theorem mailbox_eq {c : Coordinator} {v : Nat} (hv : v < c.numWorkers) :
    c.mailbox v = .ok (c.box v) := by rw [mailbox, getElem?_mailboxes hv]

theorem mailbox_eq_ok {c : Coordinator} {v : Nat} {m : Mailbox} (h : c.mailbox v = .ok m) :
    v < c.numWorkers ∧ c.box v = m := by
  unfold mailbox at h
  split at h
  · cases h
  · rename_i hm
    refine ⟨(Array.getElem?_eq_some_iff.1 hm).1, ?_⟩
    rw [box, hm, Option.getD_some]
    exact Except.ok.inj h

theorem set?_eq {c : Coordinator} {v : Nat} (hv : v < c.numWorkers) (q : Nat) :
    c.set? v q = (c.box v).set? q := by rw [set?, getElem?_mailboxes hv, Option.bind_some]

theorem frozen?_eq {c : Coordinator} {v : Nat} (hv : v < c.numWorkers) (q : Nat) :
    c.frozen? v q = (c.box v).frozen? q := by rw [frozen?, set?_eq hv, Mailbox.frozen?]

theorem any_isCompleted (c : Coordinator) (v q : Nat) :
    (c.set? v q).any (·.isCompleted) = (c.frozen? v q).isSome := by
  unfold frozen?
  cases c.set? v q with
  | none => rfl
  | some set => exact (ClauseSet.isSome_frozen? set).symm

section OnMailbox

variable {α : Type} (c : Coordinator) (v : Nat) (f : Mailbox → Except Fault α × Mailbox)

theorem onMailbox_snd : (c.onMailbox v f).2 = c.setBox v (f (c.box v)).2 := by
  unfold onMailbox setBox box
  split
  · rename_i h
    rw [Slots.visit_eq]
    simp [h, Array.setIfInBounds]
  · rename_i h
    have : c.mailboxes.setIfInBounds v (f (c.mailboxes[v]?.getD default)).2 = c.mailboxes := by
      simp [Array.setIfInBounds, h]
    rw [this]

theorem onMailbox_fst {c : Coordinator} {v : Nat} (hv : v < c.numWorkers) :
    (c.onMailbox v f).1 = (f (c.box v)).1 := by
  have hv' : v < c.mailboxes.size := hv
  unfold onMailbox box
  rw [dif_pos hv', Slots.visit_eq]
  simp [hv']

theorem lt_of_onMailbox {c : Coordinator} {v : Nat} {f : Mailbox → Except Fault α × Mailbox} {a : α}
    (h : (c.onMailbox v f).1 = .ok a) : v < c.numWorkers ∧ (f (c.box v)).1 = .ok a := by
  have hv : v < c.numWorkers := by
    unfold onMailbox at h
    split at h
    · assumption
    · cases h
  exact ⟨hv, by rw [← onMailbox_fst f hv]; exact h⟩

/-- A call that succeeds has found a mailbox and leaves what the operation has made of it. -/
theorem onMailbox_eq_ok {c c' : Coordinator} {v : Nat} {f : Mailbox → Except Fault α × Mailbox}
    {a : α} (h : c.onMailbox v f = (.ok a, c')) :
    v < c.numWorkers ∧ (f (c.box v)).1 = .ok a ∧ c' = c.setBox v (f (c.box v)).2 := by
  obtain ⟨hv, hok⟩ := lt_of_onMailbox (congrArg Prod.fst h)
  exact ⟨hv, hok, (congrArg Prod.snd h).symm.trans (onMailbox_snd c v f)⟩

/-- Closing an existing mailbox does not fail. -/
theorem close_eq {c : Coordinator} {v : Nat} (hv : v < c.numWorkers) (n : Nat) :
    c.close v n = (.ok (), c.setBox v ((c.box v).close n)) :=
  Prod.ext (onMailbox_fst _ hv) (onMailbox_snd c v _)

end OnMailbox

theorem box_congr {c c' : Coordinator} (hm : c'.mailboxes = c.mailboxes) (v : Nat) :
    c'.box v = c.box v := by rw [box, hm, box]

/-- What one call of worker `w` may do to the mailboxes. -/
inductive Effect (w : Nat) (c : Coordinator) : Coordinator → Prop
  | keep {c' : Coordinator} (hm : c'.mailboxes = c.mailboxes) (hmargin : c'.margin = c.margin)
      (hlength : c'.periodLength = c.periodLength) : Effect w c c'
  | append (clause : Clause) : Effect w c (c.setBox w ((c.box w).append clause).2)
  | advance (nextLength : Nat) : Effect w c (c.setBox w ((c.box w).advance nextLength).2)
  | close (nextLength : Nat) : Effect w c (c.setBox w ((c.box w).close nextLength))
  | acknowledge (v : Nat) (hv : v < c.numWorkers) (hvw : v ≠ w)
      (hfrozen : ((c.box v).frozen? ((c.box v).next w)).isSome) :
      Effect w c (c.setBox v ((c.box v).acknowledged w ((c.box v).next w)))

/-- All mailboxes are logs. -/
def AllLogs (c : Coordinator) : Prop :=
  ∀ v < c.numWorkers, (c.box v).IsLog v c.numWorkers c.margin

namespace Effect

variable {w : Nat} {c c' : Coordinator}

theorem numWorkers_eq (h : Effect w c c') : c'.numWorkers = c.numWorkers := by
  cases h with
  | keep hm => rw [numWorkers, hm, numWorkers]
  | append | advance | close | acknowledge => rw [numWorkers_setBox]

theorem margin_eq (h : Effect w c c') : c'.margin = c.margin := by
  cases h with
  | keep _ hmargin => exact hmargin
  | append | advance | close | acknowledge => rfl

theorem periodLength_eq (h : Effect w c c') : c'.periodLength = c.periodLength := by
  cases h with
  | keep _ _ hlength => exact hlength
  | append | advance | close | acknowledge => rfl

theorem isLog (h : Effect w c c') (hw : w < c.numWorkers) (hc : c.AllLogs) : c'.AllLogs := by
  intro v hv
  rw [h.numWorkers_eq] at hv
  rw [h.numWorkers_eq, h.margin_eq]
  have hlog := hc v hv
  cases h with
  | keep hm => rwa [box_congr hm]
  | append clause =>
    rw [box_setBox hw]
    split
    · rename_i hvw
      subst hvw
      exact hlog.append clause
    · exact hlog
  | advance n =>
    rw [box_setBox hw]
    split
    · rename_i hvw
      subst hvw
      exact hlog.advance hv n
    · exact hlog
  | close n =>
    rw [box_setBox hw]
    split
    · rename_i hvw
      subst hvw
      exact hlog.close n
    · exact hlog
  | acknowledge u hu huw hfrozen =>
    rw [box_setBox hu]
    split
    · rename_i hvu
      subst hvu
      have hlt := hlog.frozen?_isSome_iff.1 hfrozen
      have hle := (c.box v).completed_le
      exact hlog.acknowledged hw (Ne.symm huw) rfl (by omega)
    · exact hlog

theorem grows (h : Effect w c c') (hw : w < c.numWorkers) (hc : c.AllLogs) {v : Nat}
    (hv : v < c.numWorkers) : (c.box v).Grows (c'.box v) := by
  cases h with
  | keep hm =>
    rw [box_congr hm]
    exact .refl _
  | append clause =>
    rw [box_setBox hw]
    split
    · rename_i hvw
      subst hvw
      exact Mailbox.grows_append _ clause
    · exact .refl _
  | advance n =>
    rw [box_setBox hw]
    split
    · rename_i hvw
      subst hvw
      exact Mailbox.grows_advance _ n
    · exact .refl _
  | close n =>
    rw [box_setBox hw]
    split
    · rename_i hvw
      subst hvw
      exact Mailbox.grows_close _ n
    · exact .refl _
  | acknowledge u hu huw =>
    rw [box_setBox hu]
    split
    · rename_i hvu
      subst hvu
      exact Mailbox.grows_acknowledged (by rw [(hc v hv).size_cursors]; exact hw) rfl
    · exact .refl _

/-- Only its owner changes what a mailbox holds. -/
theorem contents_eq (h : Effect w c c') (hw : w < c.numWorkers) {v : Nat} (hvw : v ≠ w) :
    (c'.box v).contents = (c.box v).contents := by
  cases h with
  | keep hm => rw [box_congr hm]
  | append | advance | close => rw [box_setBox hw, if_neg hvw]
  | acknowledge u hu =>
    rw [box_setBox hu]
    split
    · rename_i hvu
      subst hvu
      exact Mailbox.contents_acknowledged _ _ _
    · rfl

theorem isClosed_eq (h : Effect w c c') (hw : w < c.numWorkers) {v : Nat} (hvw : v ≠ w) :
    (c'.box v).isClosed = (c.box v).isClosed :=
  Mailbox.isClosed_congr (h.contents_eq hw hvw)

theorem size_past_eq (h : Effect w c c') (hw : w < c.numWorkers) {v : Nat} (hvw : v ≠ w) :
    (c'.box v).past.size = (c.box v).past.size :=
  Mailbox.size_past_congr (h.contents_eq hw hvw)

/-- Only a worker itself moves its cursors, and only past a complete set. -/
theorem next_cases (h : Effect w c c') (hw : w < c.numWorkers) (hc : c.AllLogs) (v i : Nat) :
    (c'.box v).next i = (c.box v).next i ∨
      i = w ∧ (c'.box v).next i = (c.box v).next i + 1 ∧
        (c.box v).next i < (c.box v).completed := by
  cases h with
  | keep hm => exact .inl (by rw [box_congr hm])
  | append clause =>
    refine .inl ?_
    rw [box_setBox hw]
    split
    · rename_i hvw
      rw [hvw, Mailbox.next_append]
    · rfl
  | advance n =>
    refine .inl ?_
    rw [box_setBox hw]
    split
    · rename_i hvw
      rw [hvw, Mailbox.next_advance]
    · rfl
  | close n =>
    refine .inl ?_
    rw [box_setBox hw]
    split
    · rename_i hvw
      rw [hvw, Mailbox.next_close]
    · rfl
  | acknowledge u hu _ hfrozen =>
    rw [box_setBox hu]
    split
    · rename_i hvu
      subst hvu
      rw [Mailbox.next_acknowledged _ (by rw [(hc v hu).size_cursors]; exact hw)]
      split
      · rename_i hiw
        subst hiw
        exact .inr ⟨rfl, rfl, (hc v hu).frozen?_isSome_iff.1 hfrozen⟩
      · exact .inl rfl
    · exact .inl rfl

theorem next_eq (h : Effect w c c') (hw : w < c.numWorkers) (hc : c.AllLogs) {i : Nat} (hiw : i ≠ w)
    (v : Nat) : (c'.box v).next i = (c.box v).next i :=
  (h.next_cases hw hc v i).resolve_right fun hcase => hiw hcase.1

theorem completed_le (h : Effect w c c') (hw : w < c.numWorkers) (hc : c.AllLogs) {v : Nat}
    (hv : v < c.numWorkers) : (c.box v).completed ≤ (c'.box v).completed :=
  (h.grows hw hc hv).completed_le (hc v hv) (h.isLog hw hc v (by rw [h.numWorkers_eq]; exact hv))

theorem next_le_completed (h : Effect w c c') (hw : w < c.numWorkers) (hc : c.AllLogs)
    (hle : ∀ v < c.numWorkers, ∀ i, (c.box v).next i ≤ (c.box v).completed) {v : Nat}
    (hv : v < c.numWorkers) (i : Nat) : (c'.box v).next i ≤ (c'.box v).completed := by
  have hcompleted := h.completed_le hw hc hv
  rcases h.next_cases hw hc v i with heq | ⟨-, heq, hlt⟩
  · rw [heq]
    exact (hle v hv i).trans hcompleted
  · omega

end Effect

/-- Two states of a coordinator, of which the second one may be the later. -/
structure Grows (c c' : Coordinator) : Prop where
  numWorkers_eq : c'.numWorkers = c.numWorkers
  boxes : ∀ v < c.numWorkers, (c.box v).Grows (c'.box v)

theorem Grows.refl (c : Coordinator) : c.Grows c := ⟨rfl, fun _ _ => .refl _⟩

theorem Effect.allGrows {w : Nat} {c c' : Coordinator} (h : Effect w c c') (hw : w < c.numWorkers)
    (hc : c.AllLogs) : c.Grows c' := ⟨h.numWorkers_eq, fun _ hv => h.grows hw hc hv⟩

theorem Grows.frozen_eq {c c' : Coordinator} (h : c.Grows c') {v q : Nat} (hv : v < c.numWorkers)
    (hf : (c.frozen? v q).isSome) : c'.frozen? v q = c.frozen? v q := by
  obtain ⟨f, hf⟩ := Option.isSome_iff_exists.1 hf
  rw [hf, frozen?_eq (by rw [h.numWorkers_eq]; exact hv)]
  rw [frozen?_eq hv] at hf
  exact (h.boxes v hv).frozen q f hf

end Coordinator

end ClauseExchange
