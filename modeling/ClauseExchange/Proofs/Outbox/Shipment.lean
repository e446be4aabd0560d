import ClauseExchange.Proofs.Outbox.Accounts

/-!
# What becomes of the clauses that are offered

A `Shipment` is what there is to be seen of a worker's exports: the outbox, the clauses of its own
sets, and its counters. `Shipment.Move` lists how these change, and `Shipment.Run` collects the
clauses that are offered meanwhile.

* `Shipment.Sound` accounts for every clause offered: it has departed or is staged, and what has
  departed is in one of the sets, or exceeds the budget. `Sound.run` says that this stays so.
* `Sound.length_staged_le` says that an outbox is emptied if nothing is offered for long enough.
-/

namespace ClauseExchange

/-- How far a worker has come with the exports of its period. -/
inductive Loading
  /-- Nothing of this period has been exported. -/
  | idle
  /-- A drain is under way, with the counts so far. -/
  | draining (drain : Drain)
  /-- The drain is over; the set is still open. -/
  | loaded
  /-- The set is complete; the next period has not begun. -/
  | shipped
  deriving DecidableEq

namespace Loading

/-- The counts of the drain under way. -/
def drain : Loading → Drain
  | draining d => d
  | _ => {}

/-- The number of sets completed in this period. -/
def ahead : Loading → Nat
  | shipped => 1
  | _ => 0

/-- The number of drains of this period that have got anywhere. -/
def rounds : Loading → Nat
  | idle => 0
  | draining d => if d.clauses + d.oversized = 0 then 0 else 1
  | loaded | shipped => 1

theorem rounds_le (l : Loading) : l.rounds ≤ 1 := by
  cases l with
  | draining d =>
    rw [rounds]
    split <;> omega
  | idle | loaded | shipped => simp [rounds]

theorem rounds_of_ne {d : Drain} (h : d.clauses + d.oversized ≠ 0) : (draining d).rounds = 1 :=
  if_neg h

end Loading

/-- The state of a worker's exports. -/
structure Shipment where
  /-- The clauses staged for export. -/
  outbox : Outbox
  loading : Loading
  /-- The present period. -/
  period : Nat
  /-- The clauses of the complete sets. -/
  past : List (List Clause)
  /-- The clauses of the open set. -/
  tail : List Clause
  /-- The counters, without the drain under way. -/
  exportedClauses : Nat
  exportedLiterals : Nat
  oversizedClauses : Nat

namespace Shipment

/-- The number of drains that have got anywhere. -/
def rounds (p : Shipment) : Nat := p.period + p.loading.rounds

variable {budget : Nat} {offered departed new : List (Nat × Clause)} {p q : Shipment}

/-- How the exports of a worker change, and what is offered to it. -/
inductive Move (budget : Nat) (p : Shipment) : List (Nat × Clause) → Shipment → Prop
  | rest : Move budget p [] p
  | offer (hidle : p.loading = .idle) (c : Clause) (quality : Nat) :
      Move budget p [(quality, c)] { p with outbox := p.outbox.add c quality }
  | begin (hidle : p.loading = .idle) : Move budget p [] { p with loading := .draining {} }
  | drop {d : Drain} {outbox : Outbox} (hdrain : p.loading = .draining d)
      (hpick : p.outbox.pick budget d.literals = .oversized outbox) :
      Move budget p [] { p with outbox, loading := .draining d.drop }
  | publish {d : Drain} {c : Clause} {outbox : Outbox} (hdrain : p.loading = .draining d)
      (hpick : p.outbox.pick budget d.literals = .publish c outbox) :
      Move budget p []
        { p with outbox := outbox.discount c, loading := .draining (d.move c), tail := p.tail ++ [c] }
  | finish {d : Drain} {outbox : Outbox} (hdrain : p.loading = .draining d)
      (hpick : p.outbox.pick budget d.literals = .over outbox) :
      Move budget p []
        { p with
          outbox
          loading := .loaded
          exportedClauses := p.exportedClauses + d.clauses
          exportedLiterals := p.exportedLiterals + d.literals
          oversizedClauses := p.oversizedClauses + d.oversized }
  | ship (hloaded : p.loading = .loaded) :
      Move budget p [] { p with loading := .shipped, past := p.past ++ [p.tail], tail := [] }
  | enter (hshipped : p.loading = .shipped) :
      Move budget p [] { p with loading := .idle, period := p.period + 1 }

/-- Several moves, with all that is offered. -/
inductive Run (budget : Nat) (p : Shipment) : List (Nat × Clause) → Shipment → Prop
  | refl : Run budget p [] p
  | tail {offered new : List (Nat × Clause)} {q q' : Shipment} (hrun : Run budget p offered q)
      (hmove : q.Move budget new q') : Run budget p (offered ++ new) q'

/-- All clauses that have been offered are accounted for: those in `departed`, in the order in which
they left the outbox, and those still staged. -/
structure Sound (budget : Nat) (offered departed : List (Nat × Clause)) (p : Shipment) :
    Prop where
  exact : p.outbox.Exact
  /-- Only a drain empties a group without removing it, and only the first one. -/
  filled_tail : Groups.Filled p.outbox.groups.tail
  filled : (∀ d, p.loading ≠ .draining d) → p.outbox.groups.Filled
  /-- Clauses of one quality depart in the order in which they were offered. -/
  order : ∀ quality, offered.filter (·.1 = quality) =
    departed.filter (·.1 = quality) ++ p.outbox.staged.filter (·.1 = quality)
  published : (departed.filter fun d => d.2.fits budget).map (·.2) = p.past.flatten ++ p.tail
  clauses_eq : p.exportedClauses + p.loading.drain.clauses = (p.past.flatten ++ p.tail).length
  literals_eq :
    p.exportedLiterals + p.loading.drain.literals = totalLength (p.past.flatten ++ p.tail)
  oversized_eq : p.oversizedClauses + p.loading.drain.oversized =
    (departed.filter fun d => !d.2.fits budget).length
  within : 0 < budget → ∀ cs ∈ p.past ++ [p.tail], totalLength cs ≤ budget
  length_past : p.past.length = p.period + p.loading.ahead
  /-- The open set holds what the present drain has moved. -/
  tail_nil : p.loading = .idle ∨ p.loading = .shipped → p.tail = []
  tail_drain : ∀ d, p.loading = .draining d →
    p.tail.length = d.clauses ∧ totalLength p.tail = d.literals

namespace Sound

/-- A worker that has nothing to export. -/
theorem nil (budget : Nat) : Sound budget [] [] ⟨{}, .idle, 0, [], [], 0, 0, 0⟩ where
  exact := Outbox.exact_empty
  filled_tail := List.forall_mem_nil _
  filled _ := List.forall_mem_nil _
  order _ := rfl
  published := rfl
  clauses_eq := rfl
  literals_eq := rfl
  oversized_eq := rfl
  within _ cs hcs := by simp [List.mem_singleton.1 hcs]
  length_past := rfl
  tail_nil _ := rfl
  tail_drain _ h := by cases h

/-! ## The moves -/

theorem offer (h : p.Sound budget offered departed) (hidle : p.loading = .idle) (c : Clause)
    (quality : Nat) :
    { p with outbox := p.outbox.add c quality }.Sound budget (offered ++ [(quality, c)])
      departed :=
  have hfilled : (p.outbox.add c quality).groups.Filled :=
    (h.filled (by simp [hidle])).insert quality c
  { h with
    exact := h.exact.add c quality
    filled_tail := fun g hg => hfilled g (List.mem_of_mem_tail hg)
    filled := fun _ => hfilled
    order := fun k => by
      have hinsert := Groups.filter_staged_insert h.exact.ascending quality k c
      show _ = _ ++ (p.outbox.groups.insert quality c).staged.filter (·.1 = k)
      rw [hinsert, List.filter_append, h.order k, List.append_assoc]
      simp [List.filter_cons, Outbox.staged] }

theorem begin (h : p.Sound budget offered departed) (hidle : p.loading = .idle) :
    { p with loading := .draining {} }.Sound budget offered departed :=
  { h with
    filled := fun hne => absurd rfl (hne {})
    clauses_eq := by rw [← h.clauses_eq, hidle]; rfl
    literals_eq := by rw [← h.literals_eq, hidle]; rfl
    oversized_eq := by rw [← h.oversized_eq, hidle]; rfl
    length_past := by rw [h.length_past, hidle]; rfl
    tail_nil := fun hloading => by simp at hloading
    tail_drain := fun d hd => by
      cases hd
      rw [h.tail_nil (.inl hidle)]
      exact ⟨rfl, rfl⟩ }

/-- One clause leaves the outbox. -/
theorem order_concat (h : p.Sound budget offered departed) {d : Nat × Clause}
    {staged : List (Nat × Clause)} (hstaged : p.outbox.staged = d :: staged) (quality : Nat) :
    offered.filter (·.1 = quality) =
      (departed ++ [d]).filter (·.1 = quality) ++ staged.filter (·.1 = quality) := by
  rw [h.order quality, hstaged, ← List.filter_append, ← List.filter_append, List.append_assoc,
    List.singleton_append]

theorem drop (h : p.Sound budget offered departed) {d : Drain} {outbox : Outbox}
    (hdrain : p.loading = .draining d)
    (hpick : p.outbox.pick budget d.literals = .oversized outbox) :
    ∃ departed', { p with outbox, loading := .draining d.drop }.Sound budget offered departed' := by
  obtain ⟨hexact, hfilled, c, hstaged, hfits⟩ := h.exact.oversized h.filled_tail hpick
  refine ⟨departed ++ [c], { h with
    exact := hexact
    filled_tail := hfilled
    filled := fun hne => absurd rfl (hne d.drop)
    order := h.order_concat hstaged
    published := ?_
    clauses_eq := ?_
    literals_eq := ?_
    oversized_eq := ?_
    length_past := ?_
    tail_nil := fun hloading => by simp at hloading
    tail_drain := fun d' hd' => ?_ }⟩
  · rw [List.filter_append, List.map_append, h.published]
    simp [hfits]
  · rw [← h.clauses_eq, hdrain]
    rfl
  · rw [← h.literals_eq, hdrain]
    rfl
  · have := h.oversized_eq
    rw [hdrain] at this
    rw [List.filter_append, List.length_append, ← this]
    simp [hfits, Loading.drain, Drain.drop, Nat.add_assoc]
  · rw [h.length_past, hdrain]
    rfl
  · cases hd'
    exact h.tail_drain d hdrain

theorem publish (h : p.Sound budget offered departed) {d : Drain} {c : Clause} {outbox : Outbox}
    (hdrain : p.loading = .draining d)
    (hpick : p.outbox.pick budget d.literals = .publish c outbox) :
    ∃ departed', { p with
      outbox := outbox.discount c
      loading := .draining (d.move c)
      tail := p.tail ++ [c] }.Sound budget offered departed' := by
  obtain ⟨hexact, hfilled, hroom, hfits, quality, hstaged⟩ := h.exact.publish h.filled_tail hpick
  obtain ⟨hclauses, hliterals⟩ := h.tail_drain d hdrain
  refine ⟨departed ++ [(quality, c)], { h with
    exact := hexact
    filled_tail := hfilled
    filled := fun hne => absurd rfl (hne (d.move c))
    order := h.order_concat hstaged
    published := ?_
    clauses_eq := ?_
    literals_eq := ?_
    oversized_eq := ?_
    within := fun hpos cs hcs => ?_
    length_past := ?_
    tail_nil := fun hloading => by simp at hloading
    tail_drain := fun d' hd' => ?_ }⟩
  · rw [List.filter_append, List.map_append, h.published]
    simp [hfits]
  · have := h.clauses_eq
    rw [hdrain] at this
    rw [← List.append_assoc, List.length_append, ← this]
    rfl
  · have := h.literals_eq
    rw [hdrain] at this
    rw [← List.append_assoc, totalLength_append, ← this]
    simp [Loading.drain, Drain.move, Nat.add_assoc]
  · have := h.oversized_eq
    rw [hdrain] at this
    rw [List.filter_append, List.length_append, ← this]
    simp [hfits, Loading.drain, Drain.move]
  · rcases List.mem_append.1 hcs with hpast | htail
    · exact h.within hpos cs (List.mem_append_left _ hpast)
    · rw [List.mem_singleton.1 htail, totalLength_append, hliterals]
      simpa using hroom hpos
  · rw [h.length_past, hdrain]
    rfl
  · cases hd'
    rw [List.length_append, totalLength_append, hclauses, hliterals]
    simp [Drain.move]

theorem finish (h : p.Sound budget offered departed) {d : Drain} {outbox : Outbox}
    (hdrain : p.loading = .draining d)
    (hpick : p.outbox.pick budget d.literals = .over outbox) :
    { p with
      outbox
      loading := .loaded
      exportedClauses := p.exportedClauses + d.clauses
      exportedLiterals := p.exportedLiterals + d.literals
      oversizedClauses := p.oversizedClauses + d.oversized }.Sound budget offered departed :=
  have hover := h.exact.over h.filled_tail hpick
  { h with
    exact := hover.1
    filled_tail := fun g hg => hover.2.1 g (List.mem_of_mem_tail hg)
    filled := fun _ => hover.2.1
    order := fun quality => by
      show _ = _ ++ outbox.staged.filter (·.1 = quality)
      rw [hover.2.2.1, h.order quality]
    clauses_eq := by rw [← h.clauses_eq, hdrain]; rfl
    literals_eq := by rw [← h.literals_eq, hdrain]; rfl
    oversized_eq := by rw [← h.oversized_eq, hdrain]; rfl
    length_past := by rw [h.length_past, hdrain]; rfl
    tail_nil := fun hloading => by simp at hloading
    tail_drain := fun _ hd => by cases hd }

theorem ship (h : p.Sound budget offered departed) (hloaded : p.loading = .loaded) :
    { p with loading := .shipped, past := p.past ++ [p.tail], tail := [] }.Sound budget offered
      departed :=
  have hall : (p.past ++ [p.tail]).flatten ++ [] = p.past.flatten ++ p.tail := by simp
  { h with
    filled := fun _ => h.filled (by simp [hloaded])
    published := by rw [hall, h.published]
    clauses_eq := by rw [hall, ← h.clauses_eq, hloaded]; rfl
    literals_eq := by rw [hall, ← h.literals_eq, hloaded]; rfl
    oversized_eq := by rw [← h.oversized_eq, hloaded]; rfl
    within := fun hpos cs hcs => by
      rcases List.mem_append.1 hcs with hpast | htail
      · exact h.within hpos cs hpast
      · rw [List.mem_singleton.1 htail]
        exact Nat.zero_le _
    length_past := by rw [List.length_append, h.length_past, hloaded]; rfl
    tail_nil := fun _ => rfl
    tail_drain := fun _ hd => by cases hd }

theorem enter (h : p.Sound budget offered departed) (hshipped : p.loading = .shipped) :
    { p with loading := .idle, period := p.period + 1 }.Sound budget offered departed :=
  { h with
    filled := fun _ => h.filled (by simp [hshipped])
    clauses_eq := by rw [← h.clauses_eq, hshipped]; rfl
    literals_eq := by rw [← h.literals_eq, hshipped]; rfl
    oversized_eq := by rw [← h.oversized_eq, hshipped]; rfl
    length_past := by rw [h.length_past, hshipped]; rfl
    tail_nil := fun _ => h.tail_nil (.inr hshipped)
    tail_drain := fun _ hd => by cases hd }

/-- No move loses or duplicates a clause. -/
theorem move (h : p.Sound budget offered departed) (hmove : p.Move budget new q) :
    ∃ departed', q.Sound budget (offered ++ new) departed' := by
  cases hmove with
  | offer hidle c quality => exact ⟨_, h.offer hidle c quality⟩
  | rest => exact ⟨_, by rwa [List.append_nil]⟩
  | begin hidle => exact ⟨_, by rw [List.append_nil]; exact h.begin hidle⟩
  | drop hdrain hpick => rw [List.append_nil]; exact h.drop hdrain hpick
  | publish hdrain hpick => rw [List.append_nil]; exact h.publish hdrain hpick
  | finish hdrain hpick => exact ⟨_, by rw [List.append_nil]; exact h.finish hdrain hpick⟩
  | ship hloaded => exact ⟨_, by rw [List.append_nil]; exact h.ship hloaded⟩
  | enter hshipped => exact ⟨_, by rw [List.append_nil]; exact h.enter hshipped⟩

theorem run (h : p.Sound budget offered departed) (hrun : p.Run budget new q) :
    ∃ departed', q.Sound budget (offered ++ new) departed' := by
  induction hrun with
  | refl => exact ⟨_, by rwa [List.append_nil]⟩
  | tail _ hmove ih =>
    obtain ⟨_, hsound⟩ := ih
    rw [← List.append_assoc]
    exact hsound.move hmove

/-- What has been offered is what has departed and what is staged. -/
theorem perm (h : p.Sound budget offered departed) :
    offered.Perm (departed ++ p.outbox.staged) := by
  refine List.perm_iff_count.2 fun c => ?_
  have hcount (l : List (Nat × Clause)) : l.count c = (l.filter (·.1 = c.1)).count c :=
    (List.count_filter (by simp)).symm
  rw [hcount offered, hcount (departed ++ _), h.order c.1, List.filter_append]

/-- Between two drains all that has been published lies in the complete sets. -/
theorem of_idle (h : p.Sound budget offered departed) (hidle : p.loading = .idle) :
    p.past.length = p.period ∧
      (departed.filter fun d => d.2.fits budget).map (·.2) = p.past.flatten ∧
      p.exportedClauses = p.past.flatten.length ∧
      p.exportedLiterals = totalLength p.past.flatten ∧
      p.oversizedClauses = (departed.filter fun d => !d.2.fits budget).length := by
  obtain ⟨-, -, -, -, hpublished, hclauses, hliterals, hoversized, -, hpast, htail, -⟩ := h
  rw [htail (.inl hidle), List.append_nil] at hpublished hclauses hliterals
  rw [hidle] at hclauses hliterals hoversized hpast
  exact ⟨hpast, hpublished, hclauses, hliterals, hoversized⟩

/-! ## Progress -/

/-- A drain that gets somewhere takes a clause out of the outbox, or finds it empty. -/
theorem rounds_move (h : p.Sound budget offered departed) (hmove : p.Move budget new q) :
    p.rounds ≤ q.rounds ∧
      (q.outbox.staged.length + q.rounds ≤ p.outbox.staged.length + new.length + p.rounds ∨
        q.outbox.staged = []) := by
  cases hmove with
  | rest => exact ⟨Nat.le_refl _, .inl (Nat.le_refl _)⟩
  | offer hidle c quality =>
    have hlength := (Groups.perm_staged_insert quality c p.outbox.groups).length_eq
    exact ⟨Nat.le_refl _, .inl (Nat.add_le_add_right (Nat.le_of_eq hlength) _)⟩
  | begin hidle =>
    simp only [rounds, hidle]
    exact ⟨Nat.le_refl _, .inl (Nat.le_refl _)⟩
  | drop hdrain hpick =>
    rename_i d outbox
    obtain ⟨-, -, c, hstaged, -⟩ := h.exact.oversized h.filled_tail hpick
    have hle := (Loading.draining d).rounds_le
    have hrounds : (Loading.draining d.drop).rounds = 1 := Loading.rounds_of_ne (by simp [Drain.drop])
    simp only [rounds, hdrain, hstaged, hrounds, List.length_cons, List.length_nil]
    omega
  | publish hdrain hpick =>
    rename_i d c outbox
    obtain ⟨-, -, -, -, quality, hstaged⟩ := h.exact.publish h.filled_tail hpick
    have hle := (Loading.draining d).rounds_le
    have hrounds : (Loading.draining (d.move c)).rounds = 1 :=
      Loading.rounds_of_ne (by simp [Drain.move])
    simp only [rounds, hdrain, hstaged, hrounds, List.length_cons, List.length_nil]
    omega
  | finish hdrain hpick =>
    rename_i d outbox
    obtain ⟨-, -, hstaged, hempty⟩ := h.exact.over h.filled_tail hpick
    obtain ⟨hclauses, hliterals⟩ := h.tail_drain d hdrain
    have hle := (Loading.draining d).rounds_le
    simp only [rounds, hdrain]
    refine ⟨Nat.add_le_add_left hle _, ?_⟩
    by_cases hd : d.clauses + d.oversized = 0
    · -- nothing has been moved, so the next clause cannot be one that no longer fits
      have htail : p.tail = [] := List.length_eq_zero_iff.1 (by omega)
      rw [htail] at hliterals
      exact .inr (hstaged.trans (hempty hliterals.symm))
    · rw [Loading.rounds_of_ne hd, hstaged]
      exact .inl (Nat.le_refl _)
  | ship hloaded =>
    simp only [rounds, hloaded]
    exact ⟨Nat.le_refl _, .inl (Nat.le_refl _)⟩
  | enter hshipped =>
    simp only [rounds, hshipped]
    exact ⟨Nat.le_refl _, .inl (Nat.le_refl _)⟩

/-- Every period takes a clause out of the outbox, until all clauses are gone that were staged at the
beginning. -/
theorem length_staged_le (h : p.Sound budget offered departed) (hrun : p.Run budget new q) :
    q.outbox.staged.length + min (q.rounds - p.rounds) p.outbox.staged.length ≤
      p.outbox.staged.length + new.length := by
  induction hrun with
  | refl => omega
  | tail hrun hmove ih =>
    obtain ⟨_, hsound⟩ := h.run hrun
    obtain ⟨hle, hless | hnil⟩ := hsound.rounds_move hmove
    · rw [List.length_append]
      omega
    · rw [hnil, List.length_nil]
      omega

end Sound

end Shipment

end ClauseExchange
