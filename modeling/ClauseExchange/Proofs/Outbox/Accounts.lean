import ClauseExchange.Proofs.Outbox.Staged

/-!
# The accounts of an outbox

What an outbox counts is what it holds (`Outbox.Exact`), and unless a drain is under way it has a
group for exactly those qualities of which it has a clause (`Groups.Filled`, `Outbox.Exact.keys`).
Staging a clause and every pick of a drain keep this: `Outbox.Exact.add`, `Outbox.Exact.over`,
`Outbox.Exact.oversized` and `Outbox.Exact.publish`.

Among clauses of one quality a clause is staged behind all others (`Groups.filter_staged_insert`).
-/

namespace ClauseExchange

/-- Whether a clause can be exported at all. A budget of `0` is no limit. -/
def Clause.fits (budget : Nat) (c : Clause) : Bool := budget == 0 || decide (c.length ≤ budget)

theorem Clause.fits_iff {budget : Nat} {c : Clause} :
    c.fits budget = true ↔ (0 < budget → c.length ≤ budget) := by
  simp only [Clause.fits, Bool.or_eq_true, beq_iff_eq, decide_eq_true_eq]
  omega

/-- The number of literals in some clauses. -/
def totalLength (cs : List Clause) : Nat := cs.foldr (fun c n => c.length + n) 0

@[simp] theorem totalLength_nil : totalLength [] = 0 := rfl

@[simp] theorem totalLength_cons (c : Clause) (cs : List Clause) :
    totalLength (c :: cs) = c.length + totalLength cs := rfl

@[simp] theorem totalLength_append (cs ds : List Clause) :
    totalLength (cs ++ ds) = totalLength cs + totalLength ds := by
  induction cs with
  | nil => simp
  | cons c cs ih => simp [ih, Nat.add_assoc]

theorem totalLength_eq_of_perm {cs ds : List Clause} (h : cs.Perm ds) :
    totalLength cs = totalLength ds := by
  induction h with
  | nil => rfl
  | cons c _ ih => simp [ih]
  | swap => simp [Nat.add_left_comm]
  | trans _ _ ih₁ ih₂ => exact ih₁.trans ih₂

theorem foldl_length (cs : List Clause) (n : Nat) :
    cs.foldl (fun n c => n + c.length) n = n + totalLength cs := by
  induction cs generalizing n with
  | nil => rfl
  | cons c cs ih => rw [List.foldl_cons, ih, totalLength_cons, Nat.add_assoc]

theorem ClauseSet.numLiterals_eq (s : ClauseSet) :
    s.numLiterals = totalLength s.appended.toList := by
  rw [numLiterals, ← Array.foldl_toList, foldl_length, Nat.zero_add]

namespace Groups

variable {gs rest : Groups} {c : Clause} {quality k : Nat}

/-- The groups stand in the order of their qualities. -/
def Ascending (gs : Groups) : Prop := gs.Pairwise fun g g' => g.1 < g'.1

/-- No group is empty. -/
def Filled (gs : Groups) : Prop := ∀ g ∈ gs, g.2.toList ≠ []

/-! ## Adding a clause -/

theorem forall_lt_insert (h : ∀ g ∈ gs, k < g.1) (hk : k < quality) (c : Clause) :
    ∀ g ∈ gs.insert quality c, k < g.1 := by
  induction gs with
  | nil => simpa [insert] using hk
  | cons g gs ih =>
    obtain ⟨hg, hgs⟩ := List.forall_mem_cons.1 h
    rw [insert]
    split
    · exact List.forall_mem_cons.2 ⟨hk, h⟩
    · split
      · exact List.forall_mem_cons.2 ⟨hg, hgs⟩
      · exact List.forall_mem_cons.2 ⟨hg, ih hgs⟩

theorem Ascending.insert (h : gs.Ascending) (quality : Nat) (c : Clause) :
    (gs.insert quality c).Ascending := by
  induction gs with
  | nil => exact List.pairwise_singleton _ _
  | cons g gs ih =>
    obtain ⟨hg, hgs⟩ := List.pairwise_cons.1 h
    rw [Groups.insert]
    split
    · rename_i hlt
      exact List.pairwise_cons.2
        ⟨List.forall_mem_cons.2 ⟨hlt, fun g' hg' => Nat.lt_trans hlt (hg g' hg')⟩, h⟩
    · split
      · exact List.pairwise_cons.2 ⟨hg, hgs⟩
      · rename_i hnot hne
        exact List.pairwise_cons.2 ⟨forall_lt_insert hg (by omega) c, ih hgs⟩

theorem Filled.insert (h : gs.Filled) (quality : Nat) (c : Clause) :
    (gs.insert quality c).Filled := by
  induction gs with
  | nil => simp [Groups.insert, Filled]
  | cons g gs ih =>
    obtain ⟨hg, hgs⟩ := List.forall_mem_cons.1 h
    rw [Groups.insert]
    split
    · exact List.forall_mem_cons.2 ⟨by simp, h⟩
    · split
      · exact List.forall_mem_cons.2 ⟨by simp, hgs⟩
      · exact List.forall_mem_cons.2 ⟨hg, ih hgs⟩

/-- There is no clause of a quality better than those of all groups. -/
theorem filter_staged_of_lt (h : ∀ g ∈ gs, k < g.1) : gs.staged.filter (·.1 = k) = [] := by
  refine List.filter_eq_nil_iff.2 fun p hp => ?_
  obtain ⟨g, hg, hp⟩ := List.mem_flatMap.1 hp
  obtain ⟨c, -, rfl⟩ := List.mem_map.1 hp
  simpa using Nat.ne_of_gt (h g hg)

/-- A clause is staged behind the others of its quality. -/
theorem filter_staged_insert (h : gs.Ascending) (quality k : Nat) (c : Clause) :
    (gs.insert quality c).staged.filter (·.1 = k) =
      gs.staged.filter (·.1 = k) ++ if quality = k then [(quality, c)] else [] := by
  induction gs with
  | nil => simp [Groups.insert, staged, Queue.toList_push, List.filter_cons]
  | cons g gs ih =>
    obtain ⟨l, queue⟩ := g
    obtain ⟨hl, hgs⟩ := List.pairwise_cons.1 h
    rw [Groups.insert]
    split
    · rename_i hlt
      rw [staged_cons quality, List.filter_append]
      split
      · rename_i hk
        subst hk
        rw [filter_staged_of_lt (List.forall_mem_cons.2
          ⟨hlt, fun g' hg' => Nat.lt_trans hlt (hl g' hg')⟩)]
        simp
      · simp [*]
    · split
      · rename_i hk
        subst hk
        rw [staged_cons, staged_cons, Queue.toList_push, List.map_append, List.filter_append,
          List.filter_append, List.filter_append]
        split
        · rename_i hk
          subst hk
          rw [filter_staged_of_lt hl]
          simp
        · simp [*]
      · rw [staged_cons, staged_cons, List.filter_append, List.filter_append, ih hgs,
          List.append_assoc]

/-! ## Taking a clause -/

theorem sublist_trim (gs : Groups) : gs.trim.Sublist gs := List.dropWhile_sublist _

/-- A clause is taken from the first group that holds one, and the groups before it go. -/
theorem trim_of_pop? (h : gs.pop? = some (c, rest)) : ∃ k queue queue' gs',
    gs.trim = (k, queue) :: gs' ∧ queue.toList = c :: queue'.toList ∧ rest = (k, queue') :: gs' := by
  induction gs with
  | nil => simp [pop?] at h
  | cons g gs ih =>
    obtain ⟨k, queue⟩ := g
    rw [pop?] at h
    unfold trim at ih ⊢
    rw [List.dropWhile_cons]
    split at h
    · rename_i queue' hq
      simp only [Option.some.injEq, Prod.mk.injEq] at h
      obtain ⟨rfl, rfl⟩ := h
      have hlist := Queue.toList_of_pop? hq
      refine ⟨k, queue, queue', gs, if_neg ?_, hlist, rfl⟩
      rw [← Queue.length_toList, hlist]
      simp
    · rename_i hq
      obtain ⟨l, queue₁, queue', gs', htrim, hrest⟩ := ih h
      refine ⟨l, queue₁, queue', gs', ?_, hrest⟩
      rw [if_pos (by rw [← Queue.length_toList, Queue.toList_of_pop?_eq_none hq]; rfl), htrim]

theorem Ascending.trim (h : gs.Ascending) : gs.trim.Ascending := h.sublist gs.sublist_trim

theorem Ascending.pop? (h : gs.Ascending) (hpop : gs.pop? = some (c, rest)) : rest.Ascending := by
  obtain ⟨k, queue, queue', gs', htrim, -, rfl⟩ := trim_of_pop? hpop
  have := h.trim
  rw [htrim] at this
  exact List.pairwise_cons.2 (List.pairwise_cons.1 this)

/-- Only the first group can be empty once a clause has been taken. -/
theorem filled_tail_pop? (h : Filled gs.tail) (hpop : gs.pop? = some (c, rest)) :
    Filled rest.tail := by
  obtain ⟨k, queue, queue', gs', htrim, -, rfl⟩ := trim_of_pop? hpop
  have hsub := gs.sublist_trim.tail
  rw [htrim] at hsub
  exact fun g hg => h g (hsub.subset hg)

theorem filled_trim (h : Filled gs.tail) : Filled gs.trim := by
  cases gs with
  | nil => exact h
  | cons g gs =>
    unfold trim
    rw [List.dropWhile_cons]
    split
    · exact fun g' hg' => h g' ((List.dropWhile_sublist _).subset hg')
    · rename_i hg
      refine List.forall_mem_cons.2 ⟨fun hnil => hg ?_, h⟩
      rw [← Queue.length_toList, hnil]
      rfl

/-- Without empty groups the groups are those of the staged clauses. -/
theorem mem_keys_iff (h : gs.Filled) : k ∈ gs.map (·.1) ↔ ∃ c, (k, c) ∈ gs.staged := by
  constructor
  · intro hk
    obtain ⟨g, hg, rfl⟩ := List.mem_map.1 hk
    obtain ⟨c, hc⟩ := List.exists_mem_of_ne_nil _ (h g hg)
    exact ⟨c, List.mem_flatMap.2 ⟨g, hg, List.mem_map_of_mem hc⟩⟩
  · rintro ⟨c, hc⟩
    obtain ⟨g, hg, hc⟩ := List.mem_flatMap.1 hc
    obtain ⟨d, -, hd⟩ := List.mem_map.1 hc
    cases hd
    exact List.mem_map_of_mem hg

end Groups

namespace Outbox

variable {o rest : Outbox} {budget spent : Nat} {c : Clause}

/-- An outbox that counts what it holds. -/
structure Exact (o : Outbox) : Prop where
  ascending : o.groups.Ascending
  numClauses_eq : o.numClauses = o.staged.length
  numLiterals_eq : o.numLiterals = totalLength (o.staged.map (·.2))

theorem exact_empty : Exact {} := ⟨List.Pairwise.nil, rfl, rfl⟩

theorem Exact.add (h : o.Exact) (c : Clause) (quality : Nat) : (o.add c quality).Exact := by
  have hperm := Groups.perm_staged_insert quality c o.groups
  refine ⟨h.ascending.insert quality c, ?_, ?_⟩
  · exact (congrArg Nat.succ h.numClauses_eq).trans hperm.length_eq.symm
  · show o.numLiterals + c.length = totalLength ((o.groups.insert quality c).staged.map (·.2))
    rw [totalLength_eq_of_perm (hperm.map (·.2)), h.numLiterals_eq, Nat.add_comm]
    rfl

/-- The qualities of the groups stand in order, and without empty groups they are those of the staged
clauses. -/
theorem Exact.keys (h : o.Exact) (hfilled : o.groups.Filled) :
    o.keys.Pairwise (· < ·) ∧ ∀ k, k ∈ o.keys ↔ ∃ d, (k, d) ∈ o.staged :=
  ⟨List.pairwise_map.2 h.ascending, fun _ => Groups.mem_keys_iff hfilled⟩

/-- What is left when a clause has been taken and is not counted any more. -/
theorem Exact.pop? (h : o.Exact) {groups : Groups} (hpop : o.groups.pop? = some (c, groups)) :
    ({ o with groups }.discount c).Exact := by
  obtain ⟨quality, hstaged⟩ := Groups.staged_of_pop? hpop
  have hclauses := h.numClauses_eq
  have hliterals := h.numLiterals_eq
  rw [staged, hstaged] at hclauses hliterals
  refine ⟨h.ascending.pop? hpop, ?_, ?_⟩
  · exact (congrArg (· - 1) hclauses).trans (Nat.add_sub_cancel _ _)
  · exact (congrArg (· - c.length) hliterals).trans (Nat.add_sub_cancel_left _ _)

/-! ## The picks of a drain -/

/-- A drain that is over leaves no empty groups. It has moved something, or nothing is staged. -/
theorem Exact.over (h : o.Exact) (hfilled : Groups.Filled o.groups.tail)
    (hpick : o.pick budget spent = .over rest) :
    rest.Exact ∧ rest.groups.Filled ∧ rest.staged = o.staged ∧ (spent = 0 → o.staged = []) := by
  have hstaged := staged_of_pick_over hpick
  rcases of_pick_over hpick with ⟨hpop, rfl⟩ | ⟨c, groups, hpop, hstop, rfl⟩
  · have hnil := Groups.staged_of_pop?_eq_none hpop
    refine ⟨⟨List.Pairwise.nil, ?_, ?_⟩, List.forall_mem_nil _, hstaged, fun _ => hnil⟩
    · rw [hstaged]
      exact h.numClauses_eq
    · rw [hstaged]
      exact h.numLiterals_eq
  · refine ⟨⟨h.ascending.trim, ?_, ?_⟩, Groups.filled_trim hfilled, hstaged, fun hspent => ?_⟩
    · rw [hstaged]
      exact h.numClauses_eq
    · rw [hstaged]
      exact h.numLiterals_eq
    · omega

/-- A clause that is dropped exceeds the budget. -/
theorem Exact.oversized (h : o.Exact) (hfilled : Groups.Filled o.groups.tail)
    (hpick : o.pick budget spent = .oversized rest) :
    rest.Exact ∧ Groups.Filled rest.groups.tail ∧
      ∃ p, o.staged = p :: rest.staged ∧ p.2.fits budget = false := by
  obtain ⟨c, groups, hpop, ⟨hpos, hlong⟩, rfl⟩ := of_pick_oversized hpick
  obtain ⟨quality, hstaged⟩ := Groups.staged_of_pop? hpop
  refine ⟨h.pop? hpop, Groups.filled_tail_pop? hfilled hpop, (quality, c), hstaged, ?_⟩
  rw [← Bool.not_eq_true, Clause.fits_iff]
  exact fun hfits => absurd (hfits hpos) (Nat.not_le.2 hlong)

/-- A clause that is published fits in what is left of the budget. -/
theorem Exact.publish (h : o.Exact) (hfilled : Groups.Filled o.groups.tail)
    (hpick : o.pick budget spent = .publish c rest) :
    (rest.discount c).Exact ∧ Groups.Filled (rest.discount c).groups.tail ∧
      (0 < budget → spent + c.length ≤ budget) ∧ c.fits budget = true ∧
      ∃ quality, o.staged = (quality, c) :: (rest.discount c).staged := by
  obtain ⟨groups, hpop, hroom, rfl⟩ := of_pick_publish hpick
  obtain ⟨quality, hstaged⟩ := Groups.staged_of_pop? hpop
  exact ⟨h.pop? hpop, Groups.filled_tail_pop? hfilled hpop, hroom, Clause.fits_iff.2 (by omega), quality,
    hstaged⟩

end Outbox

end ClauseExchange
