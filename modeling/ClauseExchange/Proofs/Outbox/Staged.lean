import ClauseExchange.Outbox

/-!
# The staged clauses of an outbox

`Groups.staged` lists the staged clauses in the order in which a drain takes them. A pick takes the
first of them, or leaves all of them (`Outbox.staged_of_pick_publish` and its neighbours), and a new
clause is added to them (`Groups.perm_staged_insert`).
-/

namespace ClauseExchange

namespace Groups

theorem staged_cons (k : Nat) (queue : Queue Clause) (gs : Groups) :
    staged ((k, queue) :: gs) = queue.toList.map (fun c => (k, c)) ++ staged gs := rfl

theorem perm_staged_insert (quality : Nat) (c : Clause) (gs : Groups) :
    (gs.insert quality c).staged.Perm ((quality, c) :: gs.staged) := by
  induction gs with
  | nil => exact .refl _
  | cons g gs ih =>
    obtain ⟨k, queue⟩ := g
    rw [insert]
    split
    · exact .refl _
    · split
      · rename_i hk
        subst hk
        rw [staged_cons, staged_cons, Queue.toList_push, List.map_append, List.append_assoc]
        exact List.perm_middle
      · rw [staged_cons, staged_cons]
        exact (ih.append_left _).trans List.perm_middle

theorem mem_staged_insert (quality : Nat) (c : Clause) (gs : Groups) (p : Nat × Clause) :
    p ∈ (gs.insert quality c).staged ↔ p = (quality, c) ∨ p ∈ gs.staged := by
  rw [(perm_staged_insert quality c gs).mem_iff, List.mem_cons]

theorem staged_of_pop? {gs rest : Groups} {c : Clause} (h : gs.pop? = some (c, rest)) :
    ∃ quality, gs.staged = (quality, c) :: rest.staged := by
  induction gs with
  | nil => simp [pop?] at h
  | cons g gs ih =>
    obtain ⟨k, queue⟩ := g
    rw [pop?] at h
    split at h
    · rename_i hq
      simp only [Option.some.injEq, Prod.mk.injEq] at h
      obtain ⟨rfl, rfl⟩ := h
      exact ⟨k, by rw [staged_cons, staged_cons, Queue.toList_of_pop? hq]; rfl⟩
    · rename_i hq
      obtain ⟨quality, hs⟩ := ih h
      exact ⟨quality, by rw [staged_cons, Queue.toList_of_pop?_eq_none hq, hs]; rfl⟩

theorem staged_of_pop?_eq_none {gs : Groups} (h : gs.pop? = none) : gs.staged = [] := by
  induction gs with
  | nil => rfl
  | cons g gs ih =>
    obtain ⟨k, queue⟩ := g
    rw [pop?] at h
    split at h
    · cases h
    · rename_i hq
      rw [staged_cons, Queue.toList_of_pop?_eq_none hq, ih h]
      rfl

theorem staged_trim (gs : Groups) : gs.trim.staged = gs.staged := by
  induction gs with
  | nil => rfl
  | cons g gs ih =>
    obtain ⟨k, queue⟩ := g
    unfold trim at *
    rw [List.dropWhile_cons]
    split
    · rename_i hq
      have : queue.toList = [] := by
        rw [← List.length_eq_zero_iff, Queue.length_toList]
        simpa using hq
      rw [ih, staged_cons, this]
      rfl
    · rfl

end Groups

namespace Outbox

/-- The staged clauses with their qualities, in the order a drain takes them. -/
def staged (o : Outbox) : List (Nat × Clause) := o.groups.staged

theorem mem_staged_add (o : Outbox) (c : Clause) (quality : Nat) (p : Nat × Clause) :
    p ∈ (o.add c quality).staged ↔ p = (quality, c) ∨ p ∈ o.staged :=
  Groups.mem_staged_insert quality c o.groups p

variable {budget spent : Nat} {o rest : Outbox} {c : Clause}

/-- A drain is over when nothing is staged, or when the first staged clause fits the budget but not
what is left of it. -/
theorem of_pick_over (h : o.pick budget spent = .over rest) :
    (o.groups.pop? = none ∧ rest = { o with groups := [] }) ∨
      ∃ c groups, o.groups.pop? = some (c, groups) ∧
        (0 < budget ∧ c.length ≤ budget ∧ budget < spent + c.length) ∧
        rest = { o with groups := o.groups.trim } := by
  unfold pick at h
  split at h
  · rename_i hpop
    cases h
    exact .inl ⟨hpop, rfl⟩
  · rename_i c groups hpop
    split at h
    · cases h
    · split at h
      · cases h
        exact .inr ⟨c, groups, hpop, by omega, rfl⟩
      · cases h

/-- The first staged clause is dropped if it exceeds the budget. -/
theorem of_pick_oversized (h : o.pick budget spent = .oversized rest) :
    ∃ c groups, o.groups.pop? = some (c, groups) ∧ (0 < budget ∧ budget < c.length) ∧
      rest = { o with groups }.discount c := by
  unfold pick at h
  split at h
  · cases h
  · rename_i c groups hpop
    split at h
    · rename_i hlong
      cases h
      exact ⟨c, groups, hpop, hlong, rfl⟩
    · split at h <;> cases h

/-- The first staged clause is published if it fits what is left of the budget. -/
theorem of_pick_publish (h : o.pick budget spent = .publish c rest) :
    ∃ groups, o.groups.pop? = some (c, groups) ∧ (0 < budget → spent + c.length ≤ budget) ∧
      rest = { o with groups } := by
  unfold pick at h
  split at h
  · cases h
  · rename_i groups hpop
    split at h
    · cases h
    · split at h
      · cases h
      · cases h
        exact ⟨groups, hpop, by omega, rfl⟩

theorem staged_of_pick_over (h : o.pick budget spent = .over rest) : rest.staged = o.staged := by
  rcases of_pick_over h with ⟨hpop, rfl⟩ | ⟨c, groups, -, -, rfl⟩
  · exact (Groups.staged_of_pop?_eq_none hpop).symm
  · exact Groups.staged_trim o.groups

theorem staged_of_pick_oversized (h : o.pick budget spent = .oversized rest) :
    ∃ p, o.staged = p :: rest.staged := by
  obtain ⟨c, groups, hpop, -, rfl⟩ := of_pick_oversized h
  obtain ⟨quality, hs⟩ := Groups.staged_of_pop? hpop
  exact ⟨(quality, c), hs⟩

theorem staged_of_pick_publish (h : o.pick budget spent = .publish c rest) :
    ∃ quality, o.staged = (quality, c) :: rest.staged := by
  obtain ⟨groups, hpop, -, rfl⟩ := of_pick_publish h
  exact Groups.staged_of_pop? hpop

end Outbox

end ClauseExchange
