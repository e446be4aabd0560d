import ClauseExchange.Engine.Scripted
import ClauseExchange.Proofs.Exchange.Standing

/-!
# Every clause is delivered once

Between any two workers the sets travel in order, complete, and once. `Runner.Received` compares a
worker's journal with the mailboxes of the others: what it imported from a producer is what the
producer's sets hold, up to the cursor, and each of these sets was acknowledged when it was
complete. A set that has been read but not acknowledged is the only one that runs ahead of its
cursor (`Runner.unacknowledged`). What was taken and what is pending is what was imported, the units
apart from the rest.

* `Runner.Received.step` says that a worker's own step keeps this, `Runner.Received.frame` that the
  steps of the others do.
* `Portfolio.delivery` puts it together for every schedule.
-/

namespace ClauseExchange

/-! ## What a journal says -/

namespace Event

/-- The clauses that came from producer `v`. -/
def clausesFrom (v : Nat) : Event → List Clause
  | imported producer _ clauses => if producer = v then clauses else []
  | _ => []

/-- The clauses that came from any producer. -/
def clauses : Event → List Clause
  | imported _ _ clauses => clauses
  | _ => []

/-- The acknowledged period of producer `v`, and whether its set was complete. -/
def acknowledgedOf (v : Nat) : Event → List (Nat × Bool)
  | acknowledged producer period complete => if producer = v then [(period, complete)] else []
  | _ => []

/-- The units that were taken. -/
def takenUnits : Event → List Clause
  | taken batch => batch.units.toList
  | _ => []

/-- The clauses of several literals that were taken. -/
def takenClauses : Event → List Clause
  | taken batch => batch.clauses.toList
  | _ => []

end Event

namespace Mailbox

/-- The clauses of the complete sets of the first `n` periods, in order. -/
def clausesBelow (m : Mailbox) (n : Nat) : List Clause :=
  (List.range n).flatMap fun q => ((m.frozen? q).map (·.1)).getD []

theorem clausesBelow_succ {m : Mailbox} {n k : Nat} {cs : List Clause}
    (h : m.frozen? n = some (cs, k)) : m.clausesBelow (n + 1) = m.clausesBelow n ++ cs := by
  rw [clausesBelow, List.range_succ, List.flatMap_append, clausesBelow, List.flatMap_singleton, h]
  rfl

/-- What is complete stays as it is. -/
theorem Grows.clausesBelow_eq {m m' : Mailbox} {owner workers window n : Nat} (h : m.Grows m')
    (hm : m.IsLog owner workers window) (hn : n ≤ m.completed) :
    m'.clausesBelow n = m.clausesBelow n := by
  refine List.flatMap_congr fun q hq => ?_
  have hq := List.mem_range.1 hq
  obtain ⟨f, hf⟩ := Option.isSome_iff_exists.1 (hm.frozen?_isSome_iff.2 (hq.trans_le hn))
  rw [hf, h.frozen q f hf]

end Mailbox

variable {σ : Type}

/-- The number of sets of producer `v` that have been read but not acknowledged. -/
def Runner.unacknowledged (r : Runner σ) (v : Nat) : Nat :=
  match r.control with
  | .boundary ⟨_, .acknowledging offset _ _⟩ => if r.worker.neighbour offset = v then 1 else 0
  | _ => 0

/-- Worker `w`, whose journal is `events`, has received what the others produced. -/
structure Runner.Received (c : Coordinator) (w : Nat) (r : Runner σ) (events : List Event) :
    Prop where
  imported : ∀ v < c.numWorkers, v ≠ w → events.flatMap (Event.clausesFrom v) =
    (c.box v).clausesBelow ((c.box v).next w + r.unacknowledged v)
  acknowledged : ∀ v < c.numWorkers, v ≠ w → events.flatMap (Event.acknowledgedOf v) =
    (List.range ((c.box v).next w)).map fun q => (q, true)
  producers : ∀ v q cs, .imported v q cs ∈ events → v < c.numWorkers ∧ v ≠ w
  units : events.flatMap Event.takenUnits ++ r.worker.pending.units.toList =
    (events.flatMap Event.clauses).filter (·.isUnit)
  clauses : events.flatMap Event.takenClauses ++ r.worker.pending.clauses.toList =
    (events.flatMap Event.clauses).filter (!·.isUnit)

namespace Runner

variable {c c' : Coordinator} {w j : Nat} {r r' : Runner σ} {events new : List Event}

theorem unacknowledged_eq_zero (h : ∀ b offset t q, r.control = .boundary b →
    b.stage ≠ .acknowledging offset t q) (v : Nat) : r.unacknowledged v = 0 := by
  unfold unacknowledged
  split
  · rename_i hr
    exact absurd rfl (h _ _ _ _ hr)
  · rfl

theorem unacknowledged_of {b : Boundary} {offset q : Nat} {t : Tally} (hr : r.control = .boundary b)
    (hb : b.stage = .acknowledging offset t q) (v : Nat) :
    r.unacknowledged v = if r.worker.neighbour offset = v then 1 else 0 := by
  obtain ⟨counters, stage⟩ := b
  obtain rfl : stage = _ := hb
  rw [unacknowledged, hr]

theorem unacknowledged_outside (h : ∀ b, r.control ≠ .boundary b) (v : Nat) :
    r.unacknowledged v = 0 := unacknowledged_eq_zero (fun b _ _ _ hr => absurd hr (h b)) v

theorem unacknowledged_inside {b : Boundary} {stage : Stage} (hr : r.control = .boundary b)
    (hb : b.stage = stage) (hne : ∀ offset t q, stage ≠ .acknowledging offset t q) (v : Nat) :
    r.unacknowledged v = 0 := by
  refine unacknowledged_eq_zero (fun b' offset t q hr' => ?_) v
  obtain rfl := Control.boundary.inj (hr.symm.trans hr')
  rw [hb]
  exact hne offset t q

/-- A worker has only read complete sets. -/
theorem next_add_unacknowledged_le (hfits : r.control.Fits c r.worker) (hc : c.AllLogs)
    (hle : ∀ v < c.numWorkers, (c.box v).next r.worker.id ≤ (c.box v).completed) {v : Nat}
    (hv : v < c.numWorkers) :
    (c.box v).next r.worker.id + r.unacknowledged v ≤ (c.box v).completed := by
  by_cases hack : ∃ b offset t q, r.control = .boundary b ∧ b.stage = .acknowledging offset t q
  · obtain ⟨b, offset, t, q, hr, hb⟩ := hack
    rw [unacknowledged_of hr hb]
    split
    · rename_i hnv
      subst hnv
      obtain ⟨-, -, -, -, hholds, hfrozen⟩ := fits_boundary hfits hr hb
      have hlt := (hc _ hv).frozen?_isSome_iff.1 hfrozen
      rw [hholds.next_eq]
      exact hlt
    · exact hle v hv
  · rw [unacknowledged_eq_zero fun b offset t q hr hb => hack ⟨b, offset, t, q, hr, hb⟩]
    exact hle v hv

namespace Received

theorem frame (h : Received c w r events) (heff : c.Effect j c') (hj : j < c.numWorkers)
    (hc : c.AllLogs) (hne : w ≠ j)
    (hle : ∀ v < c.numWorkers, (c.box v).next w + r.unacknowledged v ≤ (c.box v).completed) :
    Received c' w r events where
  imported v hv hvw := by
    rw [heff.numWorkers_eq] at hv
    rw [heff.next_eq hj hc hne, (heff.grows hj hc hv).clausesBelow_eq (hc v hv) (hle v hv)]
    exact h.imported v hv hvw
  acknowledged v hv hvw := by
    rw [heff.numWorkers_eq] at hv
    rw [heff.next_eq hj hc hne]
    exact h.acknowledged v hv hvw
  producers := by
    rw [heff.numWorkers_eq]
    exact h.producers
  units := h.units
  clauses := h.clauses

/-- A step that brings nothing and acknowledges nothing. -/
theorem quiet (h : Received c w r events) (hnum : c'.numWorkers = c.numWorkers)
    (hbox : ∀ v ≠ w, c'.box v = c.box v) (hunack : ∀ v, r.unacknowledged v = 0)
    (hunack' : ∀ v, r'.unacknowledged v = 0) (hpending : r'.worker.pending = r.worker.pending)
    (hnew : ∀ e ∈ new, ∃ n, e = .entered n) : Received c' w r' (events ++ new) := by
  have hflat {β : Type} (f : Event → List β) (hf : ∀ n, f (.entered n) = []) :
      (events ++ new).flatMap f = events.flatMap f := by
    have hnil : new.flatMap f = [] := List.flatMap_eq_nil_iff.2 fun e he => by
      obtain ⟨n, rfl⟩ := hnew e he
      exact hf n
    rw [List.flatMap_append, hnil, List.append_nil]
  refine ⟨fun v hv hvw => ?_, fun v hv hvw => ?_, fun v q cs hmem => ?_, ?_, ?_⟩
  · rw [hnum] at hv
    rw [hflat _ fun _ => rfl, hbox v hvw, hunack', ← hunack v]
    exact h.imported v hv hvw
  · rw [hnum] at hv
    rw [hflat _ fun _ => rfl, hbox v hvw]
    exact h.acknowledged v hv hvw
  · rw [hnum]
    rcases List.mem_append.1 hmem with hmem | hmem
    · exact h.producers v q cs hmem
    · obtain ⟨n, hn⟩ := hnew _ hmem
      cases hn
  · rw [hflat _ fun _ => rfl, hflat _ fun _ => rfl, hpending]
    exact h.units
  · rw [hflat _ fun _ => rfl, hflat _ fun _ => rfl, hpending]
    exact h.clauses

/-- The engine takes the pending clauses. -/
theorem take (h : Received c w r events) (hunack : ∀ v, r.unacknowledged v = 0)
    (hunack' : ∀ v, r'.unacknowledged v = 0) (hpending : r'.worker.pending = {}) :
    Received c w r' (events ++ [.taken r.worker.pending]) := by
  refine ⟨fun v hv hvw => ?_, fun v hv hvw => ?_, fun v q cs hmem => ?_, ?_, ?_⟩
  · rw [List.flatMap_append, hunack', ← hunack v, ← h.imported v hv hvw]
    exact List.append_nil _
  · rw [List.flatMap_append, ← h.acknowledged v hv hvw]
    exact List.append_nil _
  · rcases List.mem_append.1 hmem with hmem | hmem
    · exact h.producers v q cs hmem
    · simp at hmem
  · rw [hpending, List.flatMap_append, List.flatMap_append]
    simpa [Event.takenUnits, Event.clauses] using h.units
  · rw [hpending, List.flatMap_append, List.flatMap_append]
    simpa [Event.takenClauses, Event.clauses] using h.clauses

/-- A set is read. -/
theorem read (h : Received c w r events) {u q k : Nat} {cs : List Clause} (hu : u < c.numWorkers)
    (huw : u ≠ w) (hfrozen : (c.box u).frozen? q = some (cs, k)) (hq : (c.box u).next w = q)
    (hunack : ∀ v, r.unacknowledged v = 0)
    (hunack' : ∀ v, r'.unacknowledged v = if u = v then 1 else 0)
    (hpending : r'.worker.pending = r.worker.pending.append cs) :
    Received c w r' (events ++ [.imported u q cs]) := by
  refine ⟨fun v hv hvw => ?_, fun v hv hvw => ?_, fun v q' cs' hmem => ?_, ?_, ?_⟩
  · have himp := h.imported v hv hvw
    rw [hunack, Nat.add_zero] at himp
    rw [List.flatMap_append, himp, hunack', List.flatMap_singleton, Event.clausesFrom]
    split
    · rename_i huv
      subst huv
      rw [hq, Mailbox.clausesBelow_succ hfrozen]
    · rw [List.append_nil, Nat.add_zero]
  · rw [List.flatMap_append, ← h.acknowledged v hv hvw]
    exact List.append_nil _
  · rcases List.mem_append.1 hmem with hmem | hmem
    · exact h.producers v q' cs' hmem
    · cases List.mem_singleton.1 hmem
      exact ⟨hu, huw⟩
  · rw [hpending, Batch.toList_units_append, List.flatMap_append, List.flatMap_append,
      List.filter_append, ← h.units]
    simp [Event.takenUnits, Event.clauses]
  · rw [hpending, Batch.toList_clauses_append, List.flatMap_append, List.flatMap_append,
      List.filter_append, ← h.clauses]
    simp [Event.takenClauses, Event.clauses]

/-- A set that has been read is acknowledged. -/
theorem acknowledge (h : Received c w r events) {u q : Nat} (hnum : c'.numWorkers = c.numWorkers)
    (hq : (c.box u).next w = q) (hnext : (c'.box u).next w = q + 1)
    (hcontents : (c'.box u).contents = (c.box u).contents)
    (hbox : ∀ v ≠ u, c'.box v = c.box v)
    (hunack : ∀ v, r.unacknowledged v = if u = v then 1 else 0)
    (hunack' : ∀ v, r'.unacknowledged v = 0) (hpending : r'.worker.pending = r.worker.pending) :
    Received c' w r' (events ++ [.acknowledged u q true]) := by
  refine ⟨fun v hv hvw => ?_, fun v hv hvw => ?_, fun v q' cs' hmem => ?_, ?_, ?_⟩
  · rw [hnum] at hv
    have himp := h.imported v hv hvw
    have hnil : Event.clausesFrom v (.acknowledged u q true) = [] := rfl
    rw [hunack] at himp
    rw [List.flatMap_append, himp, hunack', List.flatMap_singleton, hnil, List.append_nil,
      Nat.add_zero]
    split
    · rename_i huv
      subst huv
      rw [hq, hnext, Mailbox.clausesBelow, Mailbox.clausesBelow]
      exact List.flatMap_congr fun k _ => by rw [Mailbox.frozen?_congr hcontents]
    · rename_i huv
      rw [hbox v (Ne.symm huv), Nat.add_zero]
  · rw [hnum] at hv
    rw [List.flatMap_append, h.acknowledged v hv hvw, List.flatMap_singleton, Event.acknowledgedOf]
    split
    · rename_i huv
      subst huv
      rw [hq, hnext, List.range_succ, List.map_append]
      rfl
    · rename_i huv
      rw [hbox v (Ne.symm huv), List.append_nil]
  · rw [hnum]
    rcases List.mem_append.1 hmem with hmem | hmem
    · exact h.producers v q' cs' hmem
    · cases List.mem_singleton.1 hmem
  · rw [hpending, List.flatMap_append, List.flatMap_append]
    simpa [Event.takenUnits, Event.clauses] using h.units
  · rw [hpending, List.flatMap_append, List.flatMap_append]
    simpa [Event.takenClauses, Event.clauses] using h.clauses

/-- A worker's own step keeps what it has received, unless it breaks a rule within a boundary. -/
theorem step (h : Received c r.worker.id r events) (hstep : Step r c new r' c')
    (hid : r.worker.id < c.numWorkers) (hc : c.AllLogs)
    (hw : r.worker.numWorkers = c.numWorkers) (hfits : r.control.Fits c r.worker)
    (hnew : .broken ∉ new) : Received c' r.worker.id r' (events ++ new) := by
  have hnum := (hstep.effect hid hc hw hfits).numWorkers_eq
  have hown (m : Mailbox) (v : Nat) (hv : v ≠ r.worker.id) :
      (c.setBox r.worker.id m).box v = c.box v := by
    rw [Coordinator.box_setBox hid, if_neg hv]
  cases hstep with
  | stay =>
    rw [List.append_nil]
    exact h
  | start hr hboard =>
    exact h.quiet hnum (fun v _ => Coordinator.box_congr hboard.mailboxes_eq v)
      (unacknowledged_outside (by simp [hr])) (unacknowledged_outside (by simp)) rfl (by simp)
  | serve hr hq =>
    exact h.quiet hnum (fun _ _ => rfl) (unacknowledged_outside (by simp [hr]))
      (unacknowledged_outside (by simp)) hq.pending_eq (by simp)
  | take hr hk =>
    refine h.take (unacknowledged_outside (by simp [hr])) ?_ rfl
    rcases hk with rfl | ⟨f, rfl⟩ <;> exact unacknowledged_outside (by simp)
  | arrive hr =>
    exact h.quiet hnum (fun _ _ => rfl) (unacknowledged_outside (by simp [hr]))
      (unacknowledged_inside rfl rfl (by simp)) rfl (by simp)
  | pass hr =>
    exact h.quiet hnum (fun _ _ => rfl) (unacknowledged_outside (by simp [hr]))
      (unacknowledged_inside rfl rfl (by simp)) rfl (by simp)
  | conclude hr =>
    exact h.quiet hnum (fun _ _ => rfl) (unacknowledged_outside (by simp [hr]))
      (unacknowledged_outside (by simp)) rfl (by simp)
  | reply hr hb =>
    exact h.quiet hnum (fun _ _ => rfl) (unacknowledged_inside hr hb (by simp))
      (unacknowledged_outside (by simp)) rfl (by simp)
  | sort hr hb hq hstage =>
    refine h.quiet hnum (fun _ _ => rfl) (unacknowledged_inside hr hb (by simp)) (fun v => ?_)
      hq.pending_eq (by simp)
    rcases hstage with rfl | ⟨d', rfl⟩ <;> exact unacknowledged_inside rfl rfl (by simp) v
  | publish hr hb hq =>
    exact h.quiet hnum (hown _) (unacknowledged_inside hr hb (by simp))
      (unacknowledged_inside rfl rfl (by simp)) hq.pending_eq (by simp)
  | advance hr hb hq =>
    refine h.quiet hnum (hown _) (unacknowledged_inside hr hb (by simp))
      (unacknowledged_inside rfl rfl fun offset t q => ?_) hq.pending_eq (by simp)
    dsimp only
    split <;> simp
  | skip hr hb =>
    exact h.quiet hnum (fun _ _ => rfl) (unacknowledged_inside hr hb (by simp))
      (unacknowledged_inside rfl rfl (by simp)) rfl (by simp)
  | fetch hr hb =>
    exact h.quiet hnum (fun _ _ => rfl) (unacknowledged_inside hr hb (by simp))
      (unacknowledged_inside rfl rfl (by simp)) rfl (by simp)
  | survey hr hb =>
    exact h.quiet hnum (fun _ _ => rfl) (unacknowledged_inside hr hb (by simp))
      (unacknowledged_inside rfl rfl (by simp)) rfl (by simp)
  | passOver hr hb =>
    exact h.quiet hnum (fun _ _ => rfl) (unacknowledged_inside hr hb (by simp))
      (unacknowledged_inside rfl rfl (by simp)) rfl (by simp)
  | read hr hb hf hadd =>
    rename_i b offset q n t t' cs
    obtain ⟨-, -, -, -, hholds⟩ := fits_boundary hfits hr hb
    have hlt : r.worker.neighbour offset < c.numWorkers := hw ▸ hholds.neighbour_lt
    have hne := Worker.neighbour_ne (by rw [hw]; exact hid) hholds.offset_pos hholds.offset_lt
    rw [Coordinator.frozen?_eq hlt] at hf
    exact h.read hlt hne hf hholds.next_eq (unacknowledged_inside hr hb (by simp))
      (unacknowledged_of rfl rfl) rfl
  | acknowledge hr hb hok =>
    rename_i b offset q t
    obtain ⟨-, -, -, -, hholds, hfrozen⟩ := fits_boundary hfits hr hb
    have hlt : r.worker.neighbour offset < c.numWorkers := hw ▸ hholds.neighbour_lt
    have hcomplete : (c.frozen? (r.worker.neighbour offset) q).isSome = true := by
      rw [Coordinator.frozen?_eq hlt]
      exact hfrozen
    rw [hcomplete]
    rcases acknowledge_eq hid hc hw hholds with ⟨-, f, hf⟩ | ⟨heq, -⟩
    · rw [hok] at hf
      cases hf
    · rw [heq] at hnum ⊢
      refine h.acknowledge hnum hholds.next_eq ?_ ?_ (fun v hv => ?_) (unacknowledged_of hr hb)
        (unacknowledged_inside rfl rfl (by simp)) rfl
      · rw [Coordinator.box_setBox_self hlt,
          Mailbox.next_acknowledged _ (by rw [(hc _ hlt).size_cursors]; exact hid), if_pos rfl]
      · rw [Coordinator.box_setBox_self hlt, Mailbox.contents_acknowledged]
      · rw [Coordinator.box_setBox hlt, if_neg hv]
  | average hr hb hq =>
    exact h.quiet hnum (fun _ _ => rfl) (unacknowledged_inside hr hb (by simp))
      (unacknowledged_inside rfl rfl (by simp)) hq.pending_eq (by simp)
  | enter hr hb _ _ _ _ hpending =>
    exact h.quiet hnum (fun _ _ => rfl) (unacknowledged_inside hr hb (by simp))
      (unacknowledged_inside rfl rfl (by simp)) hpending (by simp)
  | decide hr hb =>
    exact h.quiet hnum (fun _ _ => rfl) (unacknowledged_inside hr hb (by simp))
      (unacknowledged_inside rfl rfl (by simp)) rfl (by simp)
  | fail => exact absurd (List.mem_append_right _ (List.mem_singleton_self _)) hnew
  | give hr hq =>
    refine h.quiet hnum (fun _ _ => rfl) ?_ (unacknowledged_outside (by simp)) hq.pending_eq
      (by simp)
    rcases hr with hr | hr | ⟨verdict, f, hr, -⟩ <;> exact unacknowledged_outside (by simp [hr])
  | report hr =>
    exact h.quiet hnum (fun _ _ => rfl) (unacknowledged_outside (by simp [hr]))
      (unacknowledged_outside (by simp)) rfl (by simp)
  | close hr =>
    exact h.quiet hnum (hown _) (unacknowledged_outside (by simp [hr]))
      (unacknowledged_outside (by simp)) rfl (by simp)
  | leave hr =>
    exact h.quiet hnum (hown _) (unacknowledged_outside (by simp [hr]))
      (unacknowledged_outside (by simp)) rfl (by simp)
  | signOff hr hboard hk =>
    refine h.quiet hnum (fun v _ => Coordinator.box_congr hboard.mailboxes_eq v)
      (unacknowledged_outside (by simp [hr])) ?_ rfl (by simp)
    rcases hk with ⟨f, rfl⟩ | ⟨verdict, -, rfl⟩ <;> exact unacknowledged_outside (by simp)
  | handIn hr hk =>
    refine h.quiet hnum (fun _ _ => rfl) (unacknowledged_outside (by simp [hr])) ?_ rfl (by simp)
    rcases hk with ⟨f, rfl⟩ | ⟨stats, -, rfl⟩ <;> exact unacknowledged_outside (by simp)

end Received

end Runner

/-! ## No clause without literals -/

theorem Clause.length_pos {d : Clause} (h : d.isEmpty = false) : 0 < d.length := by
  simpa [length, isEmpty, List.length_pos_iff] using h

namespace Mailbox

/-- All clauses that a mailbox holds. -/
def allClauses (m : Mailbox) : List Clause := m.contents.flatMap (·.1)

theorem mem_allClauses_of_set? {m : Mailbox} {q : Nat} {s : ClauseSet} {d : Clause}
    (hs : m.set? q = some s) (hd : d ∈ s.appended.toList) : d ∈ m.allClauses := by
  have hq : m.contents[q]? = some s.content := by rw [getElem?_contents, hs]; rfl
  exact List.mem_flatMap.2 ⟨_, List.mem_of_getElem? hq, hd⟩

theorem mem_allClauses_of_frozen {m : Mailbox} {q n : Nat} {cs : List Clause} {d : Clause}
    (h : m.frozen? q = some (cs, n)) (hd : d ∈ cs) : d ∈ m.allClauses := by
  cases hs : m.set? q with
  | none => simp [frozen?, hs] at h
  | some s =>
    rw [frozen?_of_set? hs, ClauseSet.frozen?, Option.map_eq_some_iff] at h
    obtain ⟨k, -, hk⟩ := h
    refine mem_allClauses_of_set? hs ?_
    rwa [(Prod.mk.inj hk).1]

theorem mem_allClauses_append {m : Mailbox} {clause d : Clause}
    (h : d ∈ (m.append clause).2.allClauses) : d = clause ∨ d ∈ m.allClauses := by
  rw [append_eq] at h
  split at h
  · exact .inr h
  · simp only [allClauses, contents, List.map_append, List.flatMap_append, List.map_cons,
      List.map_nil, List.flatMap_singleton, List.mem_append, ClauseSet.content, ClauseSet.push,
      Array.toList_push, List.mem_singleton] at h ⊢
    tauto

theorem allClauses_advanced (m : Mailbox) (n r : Nat) :
    (m.advanced n r).allClauses = m.allClauses := by
  simp [allClauses, contents, advanced, ClauseSet.content, ClauseSet.opened]

theorem allClauses_advance (m : Mailbox) (n : Nat) : (m.advance n).2.allClauses = m.allClauses := by
  rcases advance_cases m n with ⟨h, -⟩ | ⟨-, r, h, -⟩ <;> rw [h]
  exact allClauses_advanced m n r

theorem allClauses_close (m : Mailbox) (n : Nat) : (m.close n).allClauses = m.allClauses := by
  cases h : m.isClosed with
  | true => rw [close_of_closed h]
  | false =>
    rw [close_of_open h]
    simp [allClauses, contents, ClauseSet.content]

end Mailbox

/-- Nothing that is staged or produced is without literals. -/
structure Exchange.NoEmpty (x : Exchange σ) : Prop where
  staged : ∀ (i : Nat) (r : Runner σ), x.runners[i]? = some r →
    ∀ p ∈ r.worker.outbox.staged, p.2.isEmpty = false
  produced : ∀ v < x.shared.coordinator.numWorkers, ∀ d ∈ (x.shared.coordinator.box v).allClauses,
    d.isEmpty = false

/-- A step only produces clauses that were staged. -/
theorem Runner.Step.mem_allClauses {c c' : Coordinator} {r r' : Runner σ} {events : List Event}
    (h : r.Step c events r' c') (hid : r.worker.id < c.numWorkers) {v : Nat}
    (hv : v < c.numWorkers) {d : Clause} (hd : d ∈ (c'.box v).allClauses) :
    d ∈ (c.box v).allClauses ∨ ∃ quality, (quality, d) ∈ r.worker.outbox.staged := by
  have hsame (hm : c'.mailboxes = c.mailboxes) : d ∈ (c.box v).allClauses := by
    rwa [← Coordinator.box_congr hm]
  have hown (m : Mailbox) (hm : m.allClauses = (c.box r.worker.id).allClauses)
      (hc : c' = c.setBox r.worker.id m) : d ∈ (c.box v).allClauses := by
    rw [hc, Coordinator.box_setBox hid] at hd
    split at hd
    · rename_i hvr
      rwa [hvr, ← hm]
    · exact hd
  have hack (u q : Nat) (hc : c' = (c.acknowledge u r.worker.id q).2) :
      d ∈ (c.box v).allClauses := by
    have hcontents : (c'.box v).contents = (c.box v).contents := by
      rw [hc, Coordinator.acknowledge, Coordinator.onMailbox_snd]
      by_cases hu : u < c.numWorkers
      · rw [Coordinator.box_setBox hu]
        split
        · rename_i hvu
          rw [hvu, Mailbox.contents_acknowledge]
        · rfl
      · rw [Coordinator.setBox_of_eq fun h => absurd h hu]
    rwa [Mailbox.allClauses, hcontents] at hd
  cases h with
  | publish _ _ _ hclause =>
    rw [Coordinator.box_setBox hid] at hd
    split at hd
    · rename_i hvr
      rcases Mailbox.mem_allClauses_append hd with rfl | hd
      · exact .inr ⟨_, hclause⟩
      · exact .inl (by rwa [hvr])
    · exact .inl hd
  | start _ hboard => exact .inl (hsame hboard.mailboxes_eq)
  | signOff _ hboard => exact .inl (hsame hboard.mailboxes_eq)
  | advance => exact .inl (hown _ (Mailbox.allClauses_advance _ _) rfl)
  | close => exact .inl (hown _ (Mailbox.allClauses_close _ _) rfl)
  | leave => exact .inl (hown _ (Mailbox.allClauses_close _ _) rfl)
  | acknowledge => exact .inl (hack _ _ rfl)
  | fail _ _ _ _ _ _ hcases =>
    rcases hcases with rfl | ⟨n, f, -, -, hc⟩ | ⟨offset, t, q, f, -, -, hc⟩
    · exact .inl hd
    · exact .inl (hown _ (Mailbox.allClauses_advance _ n) hc)
    · exact .inl (hack _ _ hc)
  | _ => exact .inl (hsame rfl)

namespace Exchange

variable {config : Config} {x : Exchange σ}

theorem Fresh.noEmpty (h : x.Fresh config) : x.NoEmpty where
  staged i r hr p hp := by
    rw [h.worker hr] at hp
    simp [Outbox.staged, Groups.staged] at hp
  produced v hv d hd := by
    rw [h.numWorkers_eq] at hv
    rw [h.box_eq v hv] at hd
    simp [Mailbox.allClauses, Mailbox.contents, Mailbox.fresh, ClauseSet.content,
      ClauseSet.opened] at hd

theorem NoEmpty.turn (h : x.NoEmpty) (hx : x.Standing config) (E : Engine σ) (i : Nat) :
    (x.turn E i).NoEmpty := by
  rcases hx.turn_cases E i with ⟨heq, -⟩ | ⟨r, r', hr, hstep, heff, hrunners⟩
  · rw [heq]
    exact h
  · have hid : r.worker.id < x.shared.coordinator.numWorkers := by
      rw [(hx.runner i r hr).id_eq, hx.numWorkers_eq]
      exact hx.lt_numWorkers hr
    refine ⟨fun j s hs p hp => ?_, fun v hv d hd => ?_⟩
    · rw [hrunners] at hs
      split at hs
      · obtain rfl := Option.some.inj hs
        exact (hstep.same.staged p hp).elim (h.staged i r hr p) id
      · exact h.staged j s hs p hp
    · rw [heff.numWorkers_eq] at hv
      rcases hstep.mem_allClauses hid hv hd with hd | ⟨quality, hq⟩
      · exact h.produced v hv d hd
      · exact h.staged i r hr _ hq

theorem Fresh.noEmpty_follow (h : x.Fresh config) (E : Engine σ) (schedule : List Nat) :
    (x.follow E schedule).NoEmpty :=
  h.standing.invariant E h.noEmpty (fun _ i hy hnoEmpty => hnoEmpty.turn hy E i) schedule

/-! ## Whole runs -/

theorem Fresh.received_nil (h : x.Fresh config) {w : Nat} {r : Runner σ}
    (hr : x.runners[w]? = some r) : r.Received x.shared.coordinator w [] := by
  have hunack : ∀ v, r.unacknowledged v = 0 :=
    Runner.unacknowledged_outside (by simp [h.control_eq w r hr])
  have hpending : r.worker.pending = {} := by rw [h.worker hr]
  refine ⟨fun v hv _ => ?_, fun v hv _ => ?_, fun v q cs hmem => absurd hmem (by simp), ?_, ?_⟩
  · rw [h.numWorkers_eq] at hv
    rw [h.box_eq v hv, Mailbox.next_fresh, hunack]
    rfl
  · rw [h.numWorkers_eq] at hv
    rw [h.box_eq v hv, Mailbox.next_fresh]
    rfl
  · rw [hpending]
    rfl
  · rw [hpending]
    rfl

/-- What every worker has received after a schedule, unless it has broken a rule. -/
theorem Fresh.received (h : x.Fresh config) (E : Engine σ) (schedule : List Nat) {w : Nat}
    {r : Runner σ} (hr : (x.follow E schedule).runners[w]? = some r)
    (hsound : .broken ∉ x.journal E schedule w) :
    r.Received (x.follow E schedule).shared.coordinator w (x.journal E schedule w) := by
  obtain ⟨r₀, hr₀⟩ := h.standing.exists_runner ((h.standing.follow E schedule).lt_numWorkers hr)
  have hfollow : ∃ q, (x.follow E schedule).runners[w]? = some q ∧
      (.broken ∉ x.journal E schedule w →
        q.Received (x.follow E schedule).shared.coordinator w (x.journal E schedule w)) := by
    refine h.standing.runner_follow E hr₀
      (P := fun _ c q events => .broken ∉ events → q.Received c w events)
      (fun _ => h.received_nil hr₀) (fun _ _ _ _ hreceived => hreceived) ?_ ?_ schedule
    · intro t c' q q' new hq hreceived hstep hsound
      have hx := h.standing.follow E t
      obtain ⟨hid, -, -, -, hfits⟩ := hx.runner w q hq
      rw [List.mem_append, not_or] at hsound
      have hbefore := hreceived hsound.1
      rw [← hid] at hbefore ⊢
      exact hbefore.step hstep (by rw [hid]; exact hx.lt_mailboxes (hx.lt_numWorkers hq)) hx.logs
        (hx.worker_numWorkers_eq hq) hfits hsound.2
    · intro t j c' q hq hreceived hwj hj heff hsound
      have hx := h.standing.follow E t
      have hstands := hx.runner w q hq
      refine (hreceived hsound).frame heff hj hx.logs hwj fun v hv => ?_
      rw [← hstands.id_eq]
      refine Runner.next_add_unacknowledged_le hstands.fits hx.logs (fun u hu => ?_) hv
      rw [hx.numWorkers_eq] at hu
      exact hx.next_le u hu _
  obtain ⟨q, hq, hreceived⟩ := hfollow
  obtain rfl := Option.some.inj (hq.symm.trans hr)
  exact hreceived hsound

end Exchange

namespace Mailbox

/-- The complete sets of the first `n` periods, one after the other. -/
theorem exists_sets {m : Mailbox} {owner workers window n : Nat}
    (hm : m.IsLog owner workers window) (hn : n ≤ m.completed) : ∃ sets : List (List Clause),
      (List.range n).map (fun q => (m.set? q).bind (·.clauses?)) = sets.map some ∧
        m.clausesBelow n = sets.flatten := by
  induction n with
  | zero => exact ⟨[], rfl, rfl⟩
  | succ n ih =>
    obtain ⟨sets, hsets, hbelow⟩ := ih (by omega)
    obtain ⟨⟨cs, k⟩, hf⟩ := Option.isSome_iff_exists.1 (hm.frozen?_isSome_iff.2 hn)
    have hclauses : (m.set? n).bind (·.clauses?) = some cs := by
      cases hs : m.set? n with
      | none => simp [frozen?, hs] at hf
      | some s =>
        rw [frozen?_of_set? hs, ClauseSet.frozen?, Option.map_eq_some_iff] at hf
        obtain ⟨l, hl, hcs⟩ := hf
        rw [Option.bind_some, ClauseSet.clauses?, ClauseSet.isCompleted, hl]
        exact congrArg some (Prod.mk.inj hcs).1
    refine ⟨sets ++ [cs], ?_, ?_⟩
    · rw [List.range_succ, List.map_append, hsets, List.map_singleton, hclauses, List.map_append]
      rfl
    · rw [clausesBelow_succ hf, hbelow, List.flatten_append]
      simp

end Mailbox

namespace Runner.Received

variable {c : Coordinator} {w : Nat} {r : Runner σ} {events : List Event}

/-- What a worker that is not at a boundary has received from one producer. -/
theorem exists_sets (h : r.Received c w events) (houtside : ∀ b, r.control ≠ .boundary b)
    (hc : c.AllLogs) (hw : w < c.numWorkers) {v : Nat} (hv : v < c.numWorkers) (hvw : v ≠ w)
    (hle : (c.box v).next w ≤ (c.box v).completed) : ∃ m cursor, ∃ sets : List (List Clause),
      c.mailbox v = .ok m ∧ m.cursor w = .ok cursor ∧
      (List.range cursor).map (fun q => (m.set? q).bind (·.clauses?)) = sets.map some ∧
      events.flatMap (Event.clausesFrom v) = sets.flatten ∧
      events.flatMap (Event.acknowledgedOf v) = (List.range cursor).map fun q => (q, true) := by
  obtain ⟨sets, hsets, hbelow⟩ := Mailbox.exists_sets (hc v hv) hle
  have himported := h.imported v hv hvw
  rw [unacknowledged_outside houtside, Nat.add_zero, hbelow] at himported
  exact ⟨c.box v, (c.box v).next w, sets, Coordinator.mailbox_eq hv, (hc v hv).cursor_eq hw, hsets,
    himported, h.acknowledged v hv hvw⟩

/-- What has been imported is held by some other worker's mailbox. -/
theorem mem_allClauses (h : r.Received c w events) {d : Clause}
    (hd : d ∈ events.flatMap Event.clauses) :
    ∃ v < c.numWorkers, v ≠ w ∧ d ∈ (c.box v).allClauses := by
  obtain ⟨e, he, hde⟩ := List.mem_flatMap.1 hd
  cases e with
  | imported v q cs =>
    obtain ⟨hv, hvw⟩ := h.producers v q cs he
    have hfrom : d ∈ events.flatMap (Event.clausesFrom v) :=
      List.mem_flatMap.2 ⟨_, he, by rw [Event.clausesFrom, if_pos rfl]; exact hde⟩
    rw [h.imported v hv hvw] at hfrom
    obtain ⟨k, -, hdk⟩ := List.mem_flatMap.1 hfrom
    cases hf : (c.box v).frozen? k with
    | none => simp [hf] at hdk
    | some f =>
      rw [hf] at hdk
      exact ⟨v, hv, hvw, Mailbox.mem_allClauses_of_frozen hf hdk⟩
  | _ => simp [Event.clauses] at hde

end Runner.Received

namespace Portfolio

/-- Every set is delivered once, in order and unchanged. For a worker outside of a boundary, and
unless it has broken a rule within one, what it has imported from a producer is what the producer's
sets hold up to its cursor, all complete, and it has acknowledged each of them once, when it was
complete. What its engine has taken, with what is pending, is what it has imported from all
producers, the units apart from the longer clauses, and none of these is without literals. -/
theorem delivery (E : Engine σ) {engines : List σ} {config : Config} {sensors : Sensors}
    {p : Portfolio σ} (h : launch engines config sensors = .ok p) (schedule : List Nat) {w : Nat}
    {r : Runner σ} (hr : (p.toExchange.follow E schedule).runners[w]? = some r)
    (houtside : ∀ b, r.control ≠ .boundary b)
    (hsound : .broken ∉ p.toExchange.journal E schedule w) :
    let c := (p.toExchange.follow E schedule).shared.coordinator
    let events := p.toExchange.journal E schedule w
    (∀ v < config.numWorkers, v ≠ w → ∃ m cursor, ∃ sets : List (List Clause),
      c.mailbox v = .ok m ∧ m.cursor w = .ok cursor ∧
      (List.range cursor).map (fun q => (m.set? q).bind (·.clauses?)) = sets.map some ∧
      events.flatMap (Event.clausesFrom v) = sets.flatten ∧
      events.flatMap (Event.acknowledgedOf v) = (List.range cursor).map fun q => (q, true)) ∧
    (∀ v q cs, .imported v q cs ∈ events → v < config.numWorkers ∧ v ≠ w) ∧
    events.flatMap Event.takenUnits ++ r.worker.pending.units.toList =
      (events.flatMap Event.clauses).filter (fun d => d.length = 1) ∧
    events.flatMap Event.takenClauses ++ r.worker.pending.clauses.toList =
      (events.flatMap Event.clauses).filter (fun d => 2 ≤ d.length) ∧
    ∀ d ∈ events.flatMap Event.clauses, d.isEmpty = false := by
  have hfresh := fresh_of_launch h
  have hx := hfresh.standing.follow E schedule
  have hreceived := hfresh.received E schedule hr hsound
  have hw := hx.lt_mailboxes (hx.lt_numWorkers hr)
  have hnonempty : ∀ d ∈ (p.toExchange.journal E schedule w).flatMap Event.clauses,
      d.isEmpty = false := fun d hd => by
    obtain ⟨v, hv, -, hmem⟩ := hreceived.mem_allClauses hd
    exact (hfresh.noEmpty_follow E schedule).produced v hv d hmem
  refine ⟨fun v hv hvw => ?_, fun v q cs hmem => ?_, ?_, ?_, hnonempty⟩
  · have hle := hx.next_le v hv w
    rw [← hx.numWorkers_eq] at hv
    exact hreceived.exists_sets houtside hx.logs hw hv hvw hle
  · rw [← hx.numWorkers_eq]
    exact hreceived.producers v q cs hmem
  · rw [hreceived.units]
    exact List.filter_congr fun d _ => rfl
  · rw [hreceived.clauses]
    refine List.filter_congr fun d hd => ?_
    have hpos := Clause.length_pos (hnonempty d hd)
    rw [Bool.eq_iff_iff]
    simp only [Clause.isUnit, Bool.not_eq_true', beq_eq_false_iff_ne, decide_eq_true_eq]
    omega

/-- The second of two scripted engines has applied two clauses of the first, a unit and a longer
one. -/
theorem delivery_scripted : ∃ p r,
    launch [{ script := { offers := [{ literals := [1, 2] }, { literals := [3] }] } },
      { script := { applyEvery := 1 } }] { numWorkers := 2, margin := 0, periodLength := 10 } {} =
      .ok p ∧
    (p.toExchange.follow Scripted.engine (List.replicate 20 [0, 1]).flatten).runners[1]? = some r ∧
    let events := p.toExchange.journal Scripted.engine (List.replicate 20 [0, 1]).flatten 1
    (events.flatMap (Event.clausesFrom 0)).length = 2 ∧
    events.flatMap Event.takenUnits ++ r.worker.pending.units.toList =
      (events.flatMap Event.clauses).filter (fun d => d.length = 1) := by
  obtain ⟨p, hp, hcheck⟩ := exists_eq_ok_of_check
    (x := launch ([{ script := { offers := [{ literals := [1, 2] }, { literals := [3] }] } },
      { script := { applyEvery := 1 } }] : List Scripted)
      { numWorkers := 2, margin := 0, periodLength := 10 } {})
    (q := fun p =>
      let x := p.toExchange.follow Scripted.engine (List.replicate 20 [0, 1]).flatten
      let events := p.toExchange.journal Scripted.engine (List.replicate 20 [0, 1]).flatten 1
      x.runners[1]?.any (fun r : Runner Scripted => decide (r.control = .searching)) &&
        !events.contains .broken &&
        (events.flatMap (Event.clausesFrom 0)).length == 2) (by decide +kernel)
  simp only [Bool.and_eq_true, Bool.not_eq_true', beq_iff_eq, Option.any_eq_true,
    decide_eq_true_eq] at hcheck
  obtain ⟨⟨⟨r, hr, hcontrol⟩, hsound⟩, hlength⟩ := hcheck
  have h := delivery Scripted.engine hp (List.replicate 20 [0, 1]).flatten hr (by simp [hcontrol])
    (by simpa using hsound)
  exact ⟨p, r, hp, hr, hlength, h.2.2.1⟩

end Portfolio

end ClauseExchange
