import ClauseExchange.Proofs.Outbox.Accounts
import Mathlib.Data.List.Induction

/-!
# Where a drain ends

A drain takes the staged clauses in their order up to some place, moves those that fit the budget
and drops the others. `Outbox.Cut` says where that place is: as far on as the budget allows, before
a clause that fits the budget but not what is left of it. There is only one such place (`Cut.unique`).

* `Outbox.exists_cut_drainFrom` says that a drain into an open set ends at the cut, and gives the
  counts, the set and the outbox that it leaves.
* `Outbox.after` is the outbox after any uses of it, and `Outbox.order_after` says in which order its
  clauses are staged.
* `Outbox.drainInto_eq_cut` puts these together for every outbox that can be reached.
-/

namespace ClauseExchange

namespace Outbox

/-- Those of some taken clauses that a drain moves. -/
def moved (budget : Nat) (taken : List (Nat × Clause)) : List Clause :=
  (taken.filter fun p => p.2.fits budget).map (·.2)

/-- Those of some taken clauses that a drain drops. -/
def dropped (budget : Nat) (taken : List (Nat × Clause)) : List Clause :=
  (taken.filter fun p => !p.2.fits budget).map (·.2)

/-- The staged clauses are cut where a drain ends that has moved `spent` literals before: it takes
the first part and leaves the second. A budget of `0` is no limit. -/
structure Cut (budget spent : Nat) (staged taken rest : List (Nat × Clause)) : Prop where
  append_eq : taken ++ rest = staged
  /-- What is moved stays within the budget. -/
  within : 0 < budget → spent + totalLength (moved budget taken) ≤ budget
  /-- Only a clause that fits the budget, but not what is left of it, ends the drain. -/
  stops : ∀ p ∈ rest.head?, 0 < budget ∧ p.2.length ≤ budget ∧
    budget < spent + totalLength (moved budget taken) + p.2.length

variable {o rest : Outbox} {budget spent : Nat} {c : Clause} {dest : ClauseSet}

@[simp] theorem moved_nil : moved budget [] = [] := rfl

theorem moved_cons_of_fits {p : Nat × Clause} (h : p.2.fits budget = true)
    (taken : List (Nat × Clause)) : moved budget (p :: taken) = p.2 :: moved budget taken := by
  simp [moved, h]

theorem moved_cons_of_not_fits {p : Nat × Clause} (h : p.2.fits budget = false)
    (taken : List (Nat × Clause)) : moved budget (p :: taken) = moved budget taken := by
  simp [moved, h]

theorem moved_append (taken taken' : List (Nat × Clause)) :
    moved budget (taken ++ taken') = moved budget taken ++ moved budget taken' := by
  simp [moved]

theorem moved_zero (taken : List (Nat × Clause)) : moved 0 taken = taken.map (·.2) := by
  rw [moved, List.filter_eq_self.2 fun p _ => by rw [Clause.fits_iff]; omega]

@[simp] theorem dropped_nil : dropped budget [] = [] := rfl

theorem dropped_cons_of_fits {p : Nat × Clause} (h : p.2.fits budget = true)
    (taken : List (Nat × Clause)) : dropped budget (p :: taken) = dropped budget taken := by
  simp [dropped, h]

theorem dropped_cons_of_not_fits {p : Nat × Clause} (h : p.2.fits budget = false)
    (taken : List (Nat × Clause)) : dropped budget (p :: taken) = p.2 :: dropped budget taken := by
  simp [dropped, h]

namespace Cut

variable {staged taken taken' rest rest' : List (Nat × Clause)}

/-- No cut lies behind another: the first clause behind the earlier one would be moved, and does not
fit any more. -/
theorem length_le (h : Cut budget spent staged taken rest)
    (h' : Cut budget spent staged taken' rest') : taken'.length ≤ taken.length := by
  refine Nat.le_of_not_lt fun hlt => ?_
  have happend := h.append_eq.trans h'.append_eq.symm
  rcases List.append_eq_append_iff.1 happend with ⟨more, rfl, hrest⟩ | ⟨more, rfl, -⟩
  · cases more with
    | nil => simp at hlt
    | cons p more =>
      obtain ⟨hpos, hfits, hstops⟩ := h.stops p (by simp [hrest])
      have hwithin := h'.within hpos
      rw [moved_append, moved_cons_of_fits (Clause.fits_iff.2 fun _ => hfits), totalLength_append,
        totalLength_cons] at hwithin
      omega
  · rw [List.length_append] at hlt
    omega

/-- A drain can end at one place only. -/
theorem unique (h : Cut budget spent staged taken rest)
    (h' : Cut budget spent staged taken' rest') : taken' = taken ∧ rest' = rest := by
  have hlen : taken'.length = taken.length := Nat.le_antisymm (h.length_le h') (h'.length_le h)
  exact List.append_inj (h'.append_eq.trans h.append_eq.symm) hlen

/-- Without a budget a drain takes everything. -/
theorem of_budget_eq_zero (h : Cut 0 spent staged taken rest) : taken = staged ∧ rest = [] := by
  have hrest : rest = [] := by
    cases rest with
    | nil => rfl
    | cons p rest => exact absurd (h.stops p rfl).1 (Nat.lt_irrefl 0)
  subst hrest
  exact ⟨by rw [← h.append_eq, List.append_nil], rfl⟩

/-- A clause that exceeds the budget does not move the cut. -/
theorem cons_of_not_fits {p : Nat × Clause} (hp : p.2.fits budget = false)
    (h : Cut budget spent staged taken rest) :
    Cut budget spent (p :: staged) (p :: taken) rest where
  append_eq := by rw [List.cons_append, h.append_eq]
  within := by
    rw [moved_cons_of_not_fits hp]
    exact h.within
  stops := by
    rw [moved_cons_of_not_fits hp]
    exact h.stops

/-- A clause that is moved counts against the budget of those behind it. -/
theorem cons_of_fits {p : Nat × Clause} (hp : p.2.fits budget = true)
    (h : Cut budget (spent + p.2.length) staged taken rest) :
    Cut budget spent (p :: staged) (p :: taken) rest where
  append_eq := by rw [List.cons_append, h.append_eq]
  within := by
    rw [moved_cons_of_fits hp, totalLength_cons, ← Nat.add_assoc]
    exact h.within
  stops := by
    rw [moved_cons_of_fits hp, totalLength_cons, ← Nat.add_assoc]
    exact h.stops

end Cut

/-! ## A whole drain -/

/-- A drain into an open set ends at the cut. It counts what it has moved and dropped, and the
outbox counts what is left. -/
theorem exists_cut_drainFrom (budget : Nat) (d : Drain) (o : Outbox) (dest : ClauseSet)
    (hopen : dest.isCompleted = false) (hspent : 0 < budget → d.literals ≤ budget) :
    ∃ taken o', Cut budget d.literals o.staged taken o'.staged ∧
      drainFrom budget d o dest =
        (.ok ⟨d.clauses + (moved budget taken).length,
            d.literals + totalLength (moved budget taken),
            d.oversized + (dropped budget taken).length⟩, o',
          { dest with appended := dest.appended ++ (moved budget taken).toArray }) ∧
      o'.numClauses = o.numClauses - taken.length ∧
      o'.numLiterals = o.numLiterals - totalLength (taken.map (·.2)) := by
  fun_induction drainFrom budget d o dest with
  | case1 d o dest rest hpick =>
    refine ⟨[], rest, ⟨staged_of_pick_over hpick, hspent, ?_⟩, by simp, ?_⟩
    · intro p hp
      rw [staged_of_pick_over hpick] at hp
      rcases of_pick_over hpick with ⟨hpop, -⟩ | ⟨c, groups, hpop, hstop, -⟩
      · rw [staged, Groups.staged_of_pop?_eq_none hpop] at hp
        cases hp
      · obtain ⟨quality, hstaged⟩ := Groups.staged_of_pop? hpop
        rw [staged, hstaged] at hp
        cases hp
        exact hstop
    · rcases of_pick_over hpick with ⟨-, rfl⟩ | ⟨_, _, -, -, rfl⟩ <;> exact ⟨rfl, rfl⟩
  | case2 d o dest rest hpick ih =>
    obtain ⟨c, groups, hpop, ⟨hpos, hlong⟩, rfl⟩ := of_pick_oversized hpick
    obtain ⟨quality, hstaged⟩ := Groups.staged_of_pop? hpop
    have hfits : c.fits budget = false := by
      rw [← Bool.not_eq_true, Clause.fits_iff]
      exact fun hfits => absurd (hfits hpos) (Nat.not_le.2 hlong)
    obtain ⟨taken, o', hcut, hdrain, hclauses, hliterals⟩ := ih hopen hspent
    refine ⟨(quality, c) :: taken, o', ?_, ?_, ?_, ?_⟩
    · rw [staged, hstaged]
      exact hcut.cons_of_not_fits (p := (quality, c)) hfits
    · rw [hdrain, moved_cons_of_not_fits (p := (quality, c)) hfits,
        dropped_cons_of_not_fits (p := (quality, c)) hfits, List.length_cons, Drain.drop,
        Nat.add_right_comm, Nat.add_assoc d.oversized]
    · rw [hclauses, discount, List.length_cons, Nat.sub_sub, Nat.add_comm 1]
    · rw [hliterals, discount, List.map_cons, totalLength_cons, Nat.sub_sub]
  | case3 d o dest c rest hpick fault happend =>
    rw [ClauseSet.append, hopen] at happend
    cases happend
  | case4 d o dest c rest hpick dest' happend ih =>
    obtain ⟨groups, hpop, hroom, rfl⟩ := of_pick_publish hpick
    obtain ⟨quality, hstaged⟩ := Groups.staged_of_pop? hpop
    have hfits : c.fits budget = true := Clause.fits_iff.2 fun hpos =>
      Nat.le_of_add_left_le (hroom hpos)
    rw [ClauseSet.append, hopen] at happend
    cases happend
    obtain ⟨taken, o', hcut, hdrain, hclauses, hliterals⟩ := ih hopen hroom
    refine ⟨(quality, c) :: taken, o', ?_, ?_, ?_, ?_⟩
    · rw [staged, hstaged]
      exact hcut.cons_of_fits (p := (quality, c)) hfits
    · rw [hdrain, moved_cons_of_fits (p := (quality, c)) hfits,
        dropped_cons_of_fits (p := (quality, c)) hfits]
      simp [Drain.move, ClauseSet.push, Nat.add_assoc, Nat.add_comm 1]
    · rw [hclauses, discount, List.length_cons, Nat.sub_sub, Nat.add_comm 1]
    · rw [hliterals, discount, List.map_cons, totalLength_cons, Nat.sub_sub]

/-- A drain takes clauses from the front, whether or not the set accepts them. -/
theorem staged_drainFrom_suffix (budget : Nat) (d : Drain) (o : Outbox) (dest : ClauseSet) :
    (drainFrom budget d o dest).2.1.staged <:+ o.staged := by
  fun_induction drainFrom budget d o dest with
  | case1 d o dest rest hpick =>
    exact ⟨[], staged_of_pick_over hpick⟩
  | case2 d o dest rest hpick ih =>
    obtain ⟨p, hstaged⟩ := staged_of_pick_oversized hpick
    rw [hstaged]
    exact ih.trans (List.suffix_cons _ _)
  | case3 d o dest c rest hpick fault happend =>
    obtain ⟨quality, hstaged⟩ := staged_of_pick_publish hpick
    rw [hstaged]
    exact List.suffix_cons _ _
  | case4 d o dest c rest hpick dest' happend ih =>
    obtain ⟨quality, hstaged⟩ := staged_of_pick_publish hpick
    rw [hstaged]
    exact ih.trans (List.suffix_cons _ _)

theorem ascending_drainFrom (h : o.groups.Ascending) (budget : Nat) (d : Drain)
    (dest : ClauseSet) : (drainFrom budget d o dest).2.1.groups.Ascending := by
  fun_induction drainFrom budget d o dest with
  | case1 d o dest rest hpick =>
    rcases of_pick_over hpick with ⟨-, rfl⟩ | ⟨_, _, -, -, rfl⟩
    · exact List.Pairwise.nil
    · exact h.trim
  | case2 d o dest rest hpick ih =>
    obtain ⟨c, groups, hpop, -, rfl⟩ := of_pick_oversized hpick
    exact ih (h.pop? hpop)
  | case3 d o dest c rest hpick fault happend =>
    obtain ⟨groups, hpop, -, rfl⟩ := of_pick_publish hpick
    exact h.pop? hpop
  | case4 d o dest c rest hpick dest' happend ih =>
    obtain ⟨groups, hpop, -, rfl⟩ := of_pick_publish hpick
    exact ih (h.pop? hpop)

/-- A drain that comes to its end leaves exact accounts and no empty group. -/
theorem Exact.drainFrom (h : o.Exact) (hfilled : Groups.Filled o.groups.tail) (budget : Nat)
    (d : Drain) (hopen : dest.isCompleted = false) :
    (Outbox.drainFrom budget d o dest).2.1.Exact ∧
      (Outbox.drainFrom budget d o dest).2.1.groups.Filled := by
  fun_induction Outbox.drainFrom budget d o dest with
  | case1 d o dest rest hpick =>
    obtain ⟨hexact, hgroups, -⟩ := h.over hfilled hpick
    exact ⟨hexact, hgroups⟩
  | case2 d o dest rest hpick ih =>
    obtain ⟨hexact, hgroups, -⟩ := h.oversized hfilled hpick
    exact ih hexact hgroups hopen
  | case3 d o dest c rest hpick fault happend =>
    rw [ClauseSet.append, hopen] at happend
    cases happend
  | case4 d o dest c rest hpick dest' happend ih =>
    obtain ⟨hexact, hgroups, -⟩ := h.publish hfilled hpick
    rw [ClauseSet.append, hopen] at happend
    cases happend
    exact ih hexact hgroups hopen

/-! ## Every outbox that can be reached -/

/-- A use of an outbox. -/
inductive Use
  | add (clause : Clause) (quality : Nat)
  | drain (dest : ClauseSet) (budget : Nat)

/-- The outbox after a use of it. -/
def use (o : Outbox) : Use → Outbox
  | .add c quality => o.add c quality
  | .drain dest budget => (o.drainInto dest budget).2.1

/-- The outbox after some uses, first use first. -/
def after (uses : List Use) : Outbox := uses.foldl use {}

/-- The clauses added in some uses. -/
def added (uses : List Use) : List (Nat × Clause) :=
  uses.filterMap fun
    | .add c quality => some (quality, c)
    | .drain _ _ => none

theorem after_concat (uses : List Use) (u : Use) : after (uses ++ [u]) = (after uses).use u := by
  simp [after]

theorem ascending_after (uses : List Use) : (after uses).groups.Ascending := by
  induction uses using List.reverseRecOn with
  | nil => exact List.Pairwise.nil
  | append_singleton uses u ih =>
    rw [after_concat]
    cases u with
    | add c quality => exact ih.insert quality c
    | drain dest budget => exact ascending_drainFrom ih budget {} dest

/-- The clauses are staged best quality first. -/
theorem pairwise_staged (h : o.groups.Ascending) : o.staged.Pairwise (·.1 ≤ ·.1) := by
  rw [staged, Groups.staged, List.pairwise_flatMap]
  refine ⟨fun g _ => ?_, h.imp fun hlt p hp q hq => ?_⟩
  · exact List.pairwise_map.2 (List.pairwise_of_forall fun _ _ => Nat.le_refl _)
  · obtain ⟨c, -, rfl⟩ := List.mem_map.1 hp
    obtain ⟨d, -, rfl⟩ := List.mem_map.1 hq
    exact Nat.le_of_lt hlt

/-- Within a quality the clauses are staged in the order in which they were added, and the oldest have
left first. -/
theorem filter_staged_after (uses : List Use) (quality : Nat) :
    (after uses).staged.filter (·.1 = quality) <:+ (added uses).filter (·.1 = quality) := by
  induction uses using List.reverseRecOn with
  | nil => exact List.nil_suffix
  | append_singleton uses u ih =>
    rw [after_concat, added, List.filterMap_append, List.filter_append]
    cases u with
    | add c k =>
      obtain ⟨gone, hgone⟩ := ih
      refine ⟨gone, ?_⟩
      rw [use, staged, add, Groups.filter_staged_insert (ascending_after uses),
        ← List.append_assoc, ← staged, hgone]
      simp [added, List.filter_cons]
    | drain dest budget =>
      simp only [List.filterMap_cons, List.filterMap_nil, List.filter_nil, List.append_nil]
      exact ((staged_drainFrom_suffix budget {} (after uses) dest).filter _).trans ih

/-- As long as no set has refused a clause, the outbox counts what it holds and has no empty group. -/
theorem exact_after {uses : List Use}
    (hopen : ∀ dest budget, .drain dest budget ∈ uses → dest.isCompleted = false) :
    (after uses).Exact ∧ (after uses).groups.Filled := by
  induction uses using List.reverseRecOn with
  | nil => exact ⟨exact_empty, List.forall_mem_nil _⟩
  | append_singleton uses u ih =>
    obtain ⟨hexact, hfilled⟩ := ih fun dest budget hmem => hopen dest budget (by simp [hmem])
    rw [after_concat]
    cases u with
    | add c quality => exact ⟨hexact.add c quality, hfilled.insert quality c⟩
    | drain dest budget =>
      exact hexact.drainFrom (fun g hg => hfilled g (List.mem_of_mem_tail hg)) budget {}
        (hopen dest budget (by simp))

/-- A drain of any outbox into any open set takes the staged clauses, best quality first and oldest
first within a quality, up to the one place where `Cut` ends a drain. It appends those that fit the
budget to the set in that order, drops the others, reports the exact counts, and leaves the rest as it
was. -/
theorem drainInto_eq_cut (uses : List Use) (dest : ClauseSet) (budget : Nat)
    (hopen : dest.isCompleted = false) :
    (after uses).staged.Pairwise (·.1 ≤ ·.1) ∧
      (∀ quality, (after uses).staged.filter (·.1 = quality) <:+
        (added uses).filter (·.1 = quality)) ∧
      ∃ taken o', Cut budget 0 (after uses).staged taken o'.staged ∧
        (∀ taken' rest', Cut budget 0 (after uses).staged taken' rest' →
          taken' = taken ∧ rest' = o'.staged) ∧
        (budget = 0 → moved budget taken = (after uses).staged.map (·.2) ∧ o'.staged = []) ∧
        (after uses).drainInto dest budget =
          (.ok ⟨(moved budget taken).length, totalLength (moved budget taken),
              (dropped budget taken).length⟩, o',
            { dest with appended := dest.appended ++ (moved budget taken).toArray }) ∧
        o'.numClauses = (after uses).numClauses - taken.length ∧
        o'.numLiterals = (after uses).numLiterals - totalLength (taken.map (·.2)) ∧
        ((∀ dest' budget', .drain dest' budget' ∈ uses → dest'.isCompleted = false) →
          o'.Exact ∧ (o'.isEmpty = true ↔ o'.staged = []) ∧ o'.keys.Pairwise (· < ·) ∧
            ∀ quality, quality ∈ o'.keys ↔ ∃ c, (quality, c) ∈ o'.staged) := by
  obtain ⟨taken, o', hcut, hdrain, hclauses, hliterals⟩ :=
    exists_cut_drainFrom budget {} (after uses) dest hopen fun _ => Nat.zero_le _
  simp only [Nat.zero_add] at hcut hdrain
  refine ⟨pairwise_staged (ascending_after uses), filter_staged_after uses, taken, o', hcut,
    fun _ _ => hcut.unique, ?_, hdrain, hclauses, hliterals, ?_⟩
  · rintro rfl
    obtain ⟨rfl, hnil⟩ := hcut.of_budget_eq_zero
    exact ⟨moved_zero _, hnil⟩
  · intro hall
    have hrest : (drainFrom budget {} (after uses) dest).2.1 = o' := by rw [hdrain]
    have hafter := exact_after hall
    have hend := hafter.1.drainFrom (fun g hg => hafter.2 g (List.mem_of_mem_tail hg)) budget {}
      hopen
    rw [hrest] at hend
    obtain ⟨hexact, hfilled⟩ := hend
    refine ⟨hexact, ?_, hexact.keys hfilled⟩
    rw [isEmpty, beq_iff_eq, hexact.numClauses_eq, List.length_eq_zero_iff]

/-- A clause of `n` literals. -/
def ofLength (n : Nat) : Clause := ⟨List.replicate n 1, by simp⟩

/-- Some clauses have been added, and one drain has left what is too much for it. -/
def someUses : List Use :=
  [.add (ofLength 2) 5, .add (ofLength 3) 1, .add (ofLength 3) 5, .drain (.opened 0 0) 3,
    .add (ofLength 5) 1, .add (ofLength 2) 1, .add (ofLength 0) 3, .add (ofLength 5) 5,
    .add (ofLength 1) 5]

/-- The budget is used up exactly, a clause that exceeds it is dropped before, and another one behind
the cut stays. -/
theorem drainInto_eq_cut_someUses :
    (ClauseSet.opened 0 1).isCompleted = false ∧
      ∃ o', (after someUses).drainInto (.opened 0 1) 4 =
          (.ok ⟨3, 4, 1⟩, o', { ClauseSet.opened 0 1 with
            appended := #[ofLength 2, ofLength 0, ofLength 2] }) ∧
        o'.staged = [(5, ofLength 3), (5, ofLength 5), (5, ofLength 1)] ∧
        ∀ quality, quality ∈ o'.keys ↔ quality = 5 := by
  have hstaged : (after someUses).staged = [(1, ofLength 5), (1, ofLength 2), (3, ofLength 0),
      (5, ofLength 2), (5, ofLength 3), (5, ofLength 5), (5, ofLength 1)] := by decide +kernel
  have hcut : Cut 4 0 (after someUses).staged
      [(1, ofLength 5), (1, ofLength 2), (3, ofLength 0), (5, ofLength 2)]
      [(5, ofLength 3), (5, ofLength 5), (5, ofLength 1)] :=
    ⟨hstaged.symm, fun _ => by decide, by decide⟩
  have hopen : ∀ dest budget, .drain dest budget ∈ someUses → dest.isCompleted = false := by
    simp [someUses, ClauseSet.opened, ClauseSet.isCompleted]
  obtain ⟨-, -, taken, o', -, hunique, -, hdrain, -, -, hend⟩ :=
    drainInto_eq_cut someUses (.opened 0 1) 4 rfl
  obtain ⟨rfl, hrest⟩ := hunique _ _ hcut
  obtain ⟨-, -, -, hkeys⟩ := hend hopen
  refine ⟨rfl, o', hdrain, hrest.symm, fun quality => ?_⟩
  rw [hkeys, ← hrest]
  simp [exists_or]

end Outbox

end ClauseExchange
