import ClauseExchange.Engine.Scripted
import ClauseExchange.Proofs.Exchange.Imports
import ClauseExchange.Proofs.Exchange.Lag

/-!
# The lag of imports

A boundary at the end of period `p` imports nothing if `p` is below the margin. Otherwise it
imports, from one producer after the other, the sets between the worker's cursor and period
`p - margin`. In the mode that waits there is just the one of period `p - margin`, if the producer
has not closed its mailbox before. In the mode that does not wait the run of sets may end earlier,
at one that is found open, and that set is the first one that is imported later.

* `Exchange.Fresh.trailing_follow` bounds the cursors of a worker by the sets that it has completed
  itself, in both modes.
* `Exchange.Standing.next_follow` says that a cursor rests until the set that it points to is
  imported.
* `Portfolio.import_lag` puts it together for every boundary of every schedule.
-/

namespace ClauseExchange

variable {σ : Type}

/-! ## What is imported becomes pending -/

/-- Batch `b'` holds what `b` does, and then these clauses, the units apart from the others. -/
structure Batch.Gains (b : Batch) (cs : List Clause) (b' : Batch) : Prop where
  units_eq : b'.units.toList = b.units.toList ++ cs.filter (fun d => d.length = 1)
  clauses_eq : b'.clauses.toList = b.clauses.toList ++ cs.filter (fun d => d.length ≠ 1)

theorem Batch.gains_append (b : Batch) (cs : List Clause) : b.Gains cs (b.append cs) where
  units_eq := by
    rw [toList_units_append]
    refine congrArg _ (List.filter_congr fun d _ => ?_)
    exact beq_eq_decide ..
  clauses_eq := by
    rw [toList_clauses_append]
    refine congrArg _ (List.filter_congr fun d _ => ?_)
    simp [Clause.isUnit, beq_eq_decide]

namespace Runner

variable {r r' : Runner σ} {c c' : Coordinator} {events : List Event} {v : Nat}

/-- What a step imports is added to what is pending. -/
theorem Step.pending_eq (h : r.Step c events r' c') (htaken : ∀ batch, .taken batch ∉ events)
    (hsound : .broken ∉ events) :
    r'.worker.pending = r.worker.pending.append (events.flatMap Event.clauses) := by
  have hkeep {b : Batch} (hb : b = r.worker.pending) : b = r.worker.pending.append [] := by
    rw [hb, Batch.append_nil]
  cases h with
  | serve _ hq => exact hkeep hq.pending_eq
  | sort _ _ hq => exact hkeep hq.pending_eq
  | publish _ _ hq => exact hkeep hq.pending_eq
  | advance _ _ hq => exact hkeep hq.pending_eq
  | average _ _ hq => exact hkeep hq.pending_eq
  | give _ hq => exact hkeep hq.pending_eq
  | enter _ _ _ _ _ _ hpending => exact hkeep hpending
  | read =>
    rw [List.flatMap_singleton]
    rfl
  | take => exact absurd List.mem_cons_self (htaken _)
  | fail => exact absurd (List.mem_append_right _ List.mem_cons_self) hsound
  | _ => exact hkeep rfl

/-! ## Cursors rest between imports -/

/-- The set that is imported is the next one. -/
theorem Step.next_eq_of_imported (h : r.Step c events r' c') (hfits : r.control.Fits c r.worker)
    {q : Nat} {cs : List Clause} (hmem : .imported v q cs ∈ events) :
    (c.box v).next r.worker.id = q := by
  cases h with
  | read hr hb =>
    cases List.mem_singleton.1 hmem
    obtain ⟨-, -, -, -, hholds⟩ := fits_boundary hfits hr hb
    exact hholds.next_eq
  | fail _ hr _ _ _ _ _ _ hevents =>
    rcases hevents with rfl | ⟨offset, t, q', cs', hb, rfl⟩
    · simp at hmem
    · obtain ⟨rfl, rfl, rfl⟩ : v = _ ∧ q = q' ∧ cs = cs' := by simpa using hmem
      obtain ⟨-, -, -, -, hholds⟩ := fits_boundary hfits hr hb
      exact hholds.next_eq
  | _ => simp at hmem

/-- A worker is about to acknowledge a set when it has imported it. -/
theorem Step.acknowledging_cases (h : r.Step c events r' c') {b : Boundary} {offset q : Nat}
    {t : Tally} (hr : r'.control = .boundary b) (hb : b.stage = .acknowledging offset t q) :
    r' = r ∨ ∃ cs, .imported (r'.worker.neighbour offset) q cs ∈ events := by
  cases h with
  | stay => exact .inl rfl
  | read =>
    cases hr
    cases hb
    exact .inr ⟨_, List.mem_cons_self⟩
  | sort _ _ _ hstage =>
    cases hr
    rcases hstage with rfl | ⟨d, rfl⟩ <;> cases hb
  | advance =>
    cases hr
    dsimp only at hb
    split at hb <;> cases hb
  | take _ hk => rcases hk with rfl | ⟨f, rfl⟩ <;> cases hr
  | signOff _ _ hk => rcases hk with ⟨f, rfl⟩ | ⟨verdict, -, rfl⟩ <;> cases hr
  | handIn _ hk => rcases hk with ⟨f, rfl⟩ | ⟨stats, -, rfl⟩ <;> cases hr
  | _ => cases hr <;> cases hb

/-- A worker's cursor rests in a step that imports nothing from its producer. -/
theorem Step.next_eq_of_not_imported (h : r.Step c events r' c')
    (hid : r.worker.id < c.numWorkers) (hc : c.AllLogs)
    (hw : r.worker.numWorkers = c.numWorkers) (hfits : r.control.Fits c r.worker)
    (hnone : r.unacknowledged v = 0) (hnot : ∀ q cs, .imported v q cs ∉ events) :
    (c'.box v).next r.worker.id = (c.box v).next r.worker.id ∧ r'.unacknowledged v = 0 := by
  constructor
  · rcases h.next_cases hid hc hw hfits with hnext | ⟨b, offset, t, q, hr, hb, hc'⟩
    · exact hnext v _
    · obtain ⟨-, -, -, -, hholds, -⟩ := fits_boundary hfits hr hb
      rw [unacknowledged_of hr hb] at hnone
      have hne : v ≠ r.worker.neighbour offset := fun heq => by simp [heq] at hnone
      rw [hc', Coordinator.box_setBox (hw ▸ hholds.neighbour_lt), if_neg hne]
  · by_cases hack : ∃ b offset t q, r'.control = .boundary b ∧ b.stage = .acknowledging offset t q
    · obtain ⟨b, offset, t, q, hr, hb⟩ := hack
      rcases h.acknowledging_cases hr hb with rfl | ⟨cs, hmem⟩
      · exact hnone
      · rw [unacknowledged_of hr hb, if_neg]
        rintro rfl
        exact hnot q cs hmem
    · exact unacknowledged_eq_zero (fun b offset t q hr hb => hack ⟨b, offset, t, q, hr, hb⟩) v

end Runner

namespace Exchange

variable {config : Config} {x : Exchange σ} {E : Engine σ} {w v : Nat} {r r' : Runner σ}

/-- What is pending after a schedule in which the engine takes nothing. -/
theorem Standing.pending_follow (hx : x.Standing config) (hr : x.runners[w]? = some r)
    (u : List Nat) (hr' : (x.follow E u).runners[w]? = some r')
    (htaken : ∀ batch, .taken batch ∉ x.journal E u w) (hsound : .broken ∉ x.journal E u w) :
    r'.worker.pending = r.worker.pending.append ((x.journal E u w).flatMap Event.clauses) := by
  have hfollow : ∃ q, (x.follow E u).runners[w]? = some q ∧
      ((∀ batch, .taken batch ∉ x.journal E u w) → .broken ∉ x.journal E u w →
        q.worker.pending = r.worker.pending.append ((x.journal E u w).flatMap Event.clauses)) := by
    refine hx.runner_follow E hr
      (P := fun _ _ q events => (∀ batch, Event.taken batch ∉ events) → Event.broken ∉ events →
        q.worker.pending = r.worker.pending.append (events.flatMap Event.clauses))
      (fun _ _ => (Batch.append_nil _).symm) (fun _ _ _ _ h => h) ?_
      (fun _ _ _ _ _ h _ _ _ => h) u
    intro t _ q q' new _ h hstep htaken hsound
    rw [List.mem_append, not_or] at hsound
    rw [hstep.pending_eq (fun batch he => htaken batch (List.mem_append_right _ he)) hsound.2,
      h (fun batch he => htaken batch (List.mem_append_left _ he)) hsound.1, Batch.append_append,
      List.flatMap_append]
  obtain ⟨q, hq, hpending⟩ := hfollow
  obtain rfl := Option.some.inj (hq.symm.trans hr')
  exact hpending htaken hsound

/-- The cursor of a worker rests until the set that it points to is imported. -/
theorem Standing.next_follow (hx : x.Standing config) (hr : x.runners[w]? = some r)
    (hnone : r.unacknowledged v = 0) (u : List Nat)
    (hnot : ∀ q cs, .imported v q cs ∉ x.journal E u w) :
    ((x.follow E u).shared.coordinator.box v).next w = (x.shared.coordinator.box v).next w := by
  have hfollow : ∃ q, (x.follow E u).runners[w]? = some q ∧
      ((∀ k cs, .imported v k cs ∉ x.journal E u w) → q.unacknowledged v = 0 ∧
        ((x.follow E u).shared.coordinator.box v).next w =
          (x.shared.coordinator.box v).next w) := by
    refine hx.runner_follow E hr
      (P := fun _ c q events => (∀ k cs, Event.imported v k cs ∉ events) →
        q.unacknowledged v = 0 ∧ (c.box v).next w = (x.shared.coordinator.box v).next w)
      (fun _ => ⟨hnone, rfl⟩) (fun _ _ _ _ h => h) ?_ ?_ u
    · intro t _ q q' new hq h hstep hnot
      have hy := hx.follow E t
      obtain ⟨hid, -, -, -, hfits⟩ := hy.runner w q hq
      obtain ⟨hqnone, hnext⟩ := h fun k cs he => hnot k cs (List.mem_append_left _ he)
      obtain ⟨hkeep, hnone'⟩ := hstep.next_eq_of_not_imported
        (by rw [hid]; exact hy.lt_mailboxes (hy.lt_numWorkers hq)) hy.logs
        (hy.worker_numWorkers_eq hq) hfits hqnone fun k cs he =>
          hnot k cs (List.mem_append_right _ he)
      rw [hid] at hkeep
      exact ⟨hnone', hkeep.trans hnext⟩
    · intro t j _ q _ h hwj hj heff hnot
      obtain ⟨hqnone, hnext⟩ := h hnot
      exact ⟨hqnone, (heff.next_eq hj (hx.follow E t).logs hwj v).trans hnext⟩
  obtain ⟨_, -, hrest⟩ := hfollow
  exact (hrest hnot).2

/-- So the first set that is imported later is the one at the cursor. -/
theorem Standing.next_eq_of_imported (hx : x.Standing config) (hr : x.runners[w]? = some r)
    (hnone : r.unacknowledged v = 0) {u : List Nat}
    (hnot : ∀ q cs, .imported v q cs ∉ x.journal E u w) {q : Nat} {cs : List Clause}
    (hmem : .imported v q cs ∈ (x.follow E u).events E w) :
    q = (x.shared.coordinator.box v).next w := by
  have hy := hx.follow E u
  have hnext := hx.next_follow hr hnone u hnot
  rcases hy.turn_cases E w with ⟨-, hev⟩ | ⟨s, s', hs, hstep, -, -⟩
  · rw [hev] at hmem
    simp at hmem
  · obtain ⟨hid, -, -, -, hfits⟩ := hy.runner w s hs
    have hat := hstep.next_eq_of_imported hfits hmem
    rw [hid] at hat
    rw [← hat, hnext]

/-! ## Cursors trail the margin -/

/-- The cursors of every worker lie at least the margin behind its own open set. -/
def Trailing (x : Exchange σ) : Prop :=
  ∀ v < x.shared.coordinator.numWorkers, ∀ i < x.shared.coordinator.numWorkers, v ≠ i →
    (x.shared.coordinator.box v).next i ≤
      (x.shared.coordinator.box i).past.size - x.shared.coordinator.margin

theorem Fresh.trailing (h : x.Fresh config) : x.Trailing := by
  intro v hv i _ _
  rw [h.numWorkers_eq] at hv
  rw [h.box_eq v hv, Mailbox.next_fresh]
  exact Nat.zero_le _

theorem Trailing.turn (h : x.Trailing) (hx : x.Standing config) (E : Engine σ) (j : Nat) :
    (x.turn E j).Trailing := by
  rcases hx.turn_cases E j with ⟨heq, -⟩ | ⟨r, r', hr, hstep, heff, -⟩
  · rw [heq]
    exact h
  · have hj := hx.lt_mailboxes (hx.lt_numWorkers hr)
    obtain ⟨rfl, -, -, -, hfits⟩ := hx.runner j r hr
    have hw := hx.worker_numWorkers_eq hr
    intro v hv i hi hvi
    rw [heff.numWorkers_eq] at hv hi
    have hle := h v hv i hi hvi
    have hsize := (heff.grows hj hx.logs hi).past_le
    rw [heff.margin_eq]
    rcases hstep.next_cases hj hx.logs hw hfits with hnext | ⟨b, offset, t, q, hb, hstage, hc⟩
    · rw [hnext]
      omega
    · -- the worker has completed its own set, and the one that it has read was due
      obtain ⟨-, hpast, -, hmargin, hholds, -⟩ := Runner.fits_boundary hfits hb hstage
      have hdue := hholds.period_le
      have hahead : (Stage.acknowledging offset t q).ahead = 1 := rfl
      have hu : r.worker.neighbour offset < x.shared.coordinator.numWorkers :=
        hw ▸ hholds.neighbour_lt
      have hread : ((x.turn E r.worker.id).shared.coordinator.box v).next i ≤
          (x.shared.coordinator.box v).next i ∨
            i = r.worker.id ∧ ((x.turn E r.worker.id).shared.coordinator.box v).next i = q + 1 := by
        rw [hc, Coordinator.box_setBox hu]
        split
        · rename_i hvu
          rw [hvu, Mailbox.next_acknowledged _ (by rw [(hx.logs _ hu).size_cursors]; exact hj)]
          split
          · exact .inr ⟨‹_›, rfl⟩
          · exact .inl le_rfl
        · exact .inl le_rfl
      unfold Worker.importPeriod at hdue
      rcases hread with hread | ⟨rfl, hread⟩ <;> omega

/-- The cursors trail the margin after every schedule. -/
theorem Fresh.trailing_follow (h : x.Fresh config) (E : Engine σ) (schedule : List Nat) :
    (x.follow E schedule).Trailing :=
  h.standing.invariant E h.trailing (fun _ i hy htrailing => htrailing.turn hy E i) schedule

end Exchange

/-! ## In the mode that waits -/

/-- When a worker has caught up with a producer for one more period, it has imported the set that
was due, if there is one. -/
theorem Coordinator.CaughtUp.transfers_eq {c₀ c : Coordinator} {i v p : Nat}
    (h₀ : c₀.CaughtUp i v p) (h : c.CaughtUp i v (p + 1)) (hm : c.margin ≤ p)
    (hmargin : c₀.margin = c.margin) (hgrows : (c₀.box v).Grows (c.box v))
    (hv : v < c.numWorkers) (hc : c.AllLogs) (hle : (c.box v).next i ≤ (c.box v).completed) :
    c.transfers v ((c₀.box v).next i) ((c.box v).next i) = c.transfer v (p - c.margin) ∧
      ((c.frozen? v (p - c.margin)).isSome ∨
        (c.box v).isClosed = true ∧ (c.box v).tail.period < p - c.margin) ∧
      (c.box v).next i =
        if (c.box v).isClosed then min (p - c.margin + 1) ((c.box v).tail.period + 1)
        else p - c.margin + 1 := by
  have hlast := (c.box v).completed_le
  have hmono := hgrows.next_le i
  have hcases : (c₀.box v).next i = p - c.margin ∧ (c.box v).next i = p - c.margin + 1 ∨
      (c.box v).isClosed = true ∧ (c.box v).past.size < p - c.margin ∧
        (c.box v).next i = (c.box v).past.size + 1 ∧ (c₀.box v).next i = (c.box v).next i := by
    rcases h₀ with hnext₀ | ⟨hclosed₀, hnext₀, hpast₀⟩
    · rcases h with hnext | ⟨hclosed, hnext, hpast⟩
      · exact .inl ⟨by omega, by omega⟩
      · by_cases hall : (c.box v).next i = p - c.margin + 1
        · exact .inl ⟨by omega, hall⟩
        · exact .inr ⟨hclosed, by omega, hnext, by omega⟩
    · obtain ⟨hclosed, hsize⟩ := hgrows.closed hclosed₀
      exact .inr ⟨hclosed, by omega, by omega, by omega⟩
  rw [frozen?_eq hv, (hc v hv).frozen?_isSome_iff, (hc v hv).tail_period]
  rcases hcases with ⟨hnext₀, hnext⟩ | ⟨hclosed, hpast, hnext, hrest⟩
  · refine ⟨?_, .inl (by omega), ?_⟩
    · rw [hnext₀, hnext, transfers_succ le_rfl, transfers_of_le le_rfl, List.nil_append]
    · rw [hnext]
      split <;> omega
  · refine ⟨?_, .inr ⟨hclosed, hpast⟩, ?_⟩
    · have hnone : c.frozen? v (p - c.margin) = none := by
        rw [frozen?_eq hv, ← Option.not_isSome_iff_eq_none, (hc v hv).frozen?_isSome_iff]
        omega
      rw [hrest, transfers_of_le le_rfl, transfer, hnone]
    · rw [if_pos hclosed, hnext]
      omega

/-! ## Whole boundaries -/

/-- The other workers, in the order in which worker `w` imports from them. -/
def Config.producersFor (config : Config) (w : Nat) : List Nat :=
  (List.range' 1 (config.numWorkers - 1)).map fun k => (w + k) % config.numWorkers

namespace Exchange

variable {config : Config} {x : Exchange σ} {E : Engine σ} {w : Nat} {r r' : Runner σ}
  {b b' : Boundary} {t : List Nat}

/-- What a boundary has brought when the next period is entered. -/
theorem Standing.round_over (hx : x.Standing config) {d : Drain} (hr : x.runners[w]? = some r)
    (hcontrol : r.control = .boundary b) (hstage : b.stage = .exporting d)
    (hr' : (x.follow E t).runners[w]? = some r') (hcontrol' : r'.control = .boundary b')
    (hstage' : b'.stage = .deciding) (hperiod : r'.worker.period = r.worker.period + 1) :
    r.worker.Reads x.shared.coordinator (x.follow E t).shared.coordinator (x.FoundOpen E t w)
        r.worker.numWorkers ∧
      x.journal E t w =
        r.worker.transfers x.shared.coordinator (x.follow E t).shared.coordinator ++
          [.entered r'.worker.periodLength] := by
  obtain ⟨q, hq, hround⟩ := hx.round_follow E hr hcontrol hstage t
  obtain rfl := Option.some.inj (hr'.symm.trans hq)
  cases hround with
  | underway hb hearly =>
    obtain rfl := Control.boundary.inj (hcontrol'.symm.trans hb)
    rw [hstage'] at hearly
    cases hearly
  | entered _ hdone => exact hdone b' hcontrol' hstage' hperiod
  | broken hbroken =>
    rw [hcontrol'] at hbroken
    cases hbroken

/-- What it has imported is pending. -/
theorem Standing.pending_over (hx : x.Standing config) (hr : x.runners[w]? = some r)
    (hr' : (x.follow E t).runners[w]? = some r') {c₀ c : Coordinator} {length : Nat}
    (hevents : x.journal E t w = r.worker.transfers c₀ c ++ [.entered length]) :
    r'.worker.pending = r.worker.pending.append ((x.journal E t w).flatMap Event.clauses) := by
  have hmem {e : Event} (he : e ∈ x.journal E t w) : (∃ v q clauses, e = .imported v q clauses) ∨
      (∃ v q, e = .acknowledged v q true) ∨ e = .entered length := by
    rw [hevents] at he
    rcases List.mem_append.1 he with he | he
    · obtain ⟨v, q, ⟨clauses, rfl⟩ | rfl⟩ := Worker.eq_of_mem_transfers he
      · exact .inl ⟨v, q, clauses, rfl⟩
      · exact .inr (.inl ⟨v, q, rfl⟩)
    · exact .inr (.inr (List.mem_singleton.1 he))
  refine hx.pending_follow hr t hr' (fun batch he => ?_) fun he => ?_
  · simpa using hmem he
  · simpa using hmem he

/-- A boundary of worker `w`, from its exports after the schedule `s` to the moment, after the
further schedule `t`, when the next period has been entered. -/
structure Crossed (x : Exchange σ) (E : Engine σ) (config : Config) (s t : List Nat) (w : Nat)
    (r r' : Runner σ) : Prop where
  fresh : x.Fresh config
  runner : (x.follow E s).runners[w]? = some r
  exporting : ∃ b d, r.control = .boundary b ∧ b.stage = .exporting d
  runner' : (x.follow E (s ++ t)).runners[w]? = some r'
  deciding : ∃ b, r'.control = .boundary b ∧ b.stage = .deciding
  period_eq : r'.worker.period = r.worker.period + 1

namespace Crossed

variable {s : List Nat} {v : Nat} (h : x.Crossed E config s t w r r')
include h

theorem standing : (x.follow E s).Standing config := h.fresh.standing.follow E s

theorem standing' : (x.follow E (s ++ t)).Standing config := h.fresh.standing.follow E (s ++ t)

theorem grows : (x.follow E s).shared.coordinator.Grows
    (x.follow E (s ++ t)).shared.coordinator := by
  have hgrows := h.standing.allGrows_follow E t
  rwa [← follow_append] at hgrows

theorem worker_eq : r.worker.id = w ∧ r.worker.numWorkers = config.numWorkers :=
  ⟨(h.standing.runner w r h.runner).id_eq, (h.standing.runner w r h.runner).numWorkers_eq⟩

theorem lt_numWorkers : w < config.numWorkers := h.standing.lt_numWorkers h.runner

theorem id_lt : r.worker.id < r.worker.numWorkers := by
  rw [h.worker_eq.1, h.worker_eq.2]
  exact h.lt_numWorkers

theorem mem_producers : v ∈ r.worker.producers ↔ v < config.numWorkers ∧ v ≠ w := by
  rw [Worker.mem_producers h.id_lt, h.worker_eq.1, h.worker_eq.2]

theorem producers_eq : r.worker.producers = config.producersFor w := by
  show (List.range' 1 (r.worker.numWorkers - 1)).map
    (fun k => (r.worker.id + k) % r.worker.numWorkers) = _
  rw [h.worker_eq.1, h.worker_eq.2]
  rfl

/-- The worker's own mailbox has a set for every period that it has left behind. -/
theorem size_past : ((x.follow E s).shared.coordinator.box w).past.size = r.worker.period ∧
    ((x.follow E (s ++ t)).shared.coordinator.box w).past.size = r.worker.period + 1 := by
  obtain ⟨b, d, hcontrol, hstage⟩ := h.exporting
  obtain ⟨b', hcontrol', hstage'⟩ := h.deciding
  obtain ⟨hid, -, -, -, hfits⟩ := h.standing.runner w r h.runner
  obtain ⟨hid', -, -, -, hfits'⟩ := h.standing'.runner w r' h.runner'
  obtain ⟨-, hpast, -⟩ := Runner.fits_boundary hfits hcontrol hstage
  obtain ⟨-, hpast', -⟩ := Runner.fits_boundary hfits' hcontrol' hstage'
  rw [hid] at hpast
  rw [hid', h.period_eq] at hpast'
  exact ⟨hpast, hpast'⟩

/-- The cursors trail the margin at the beginning and at the end. -/
theorem next_le (hv : v ∈ r.worker.producers) :
    ((x.follow E s).shared.coordinator.box v).next w ≤ r.worker.period - config.margin ∧
      ((x.follow E (s ++ t)).shared.coordinator.box v).next w ≤
        r.worker.period + 1 - config.margin := by
  obtain ⟨hv, hvw⟩ := h.mem_producers.1 hv
  have hw := h.lt_numWorkers
  have hle := h.fresh.trailing_follow E s v (h.standing.lt_mailboxes hv) w
    (h.standing.lt_mailboxes hw) hvw
  have hle' := h.fresh.trailing_follow E (s ++ t) v (h.standing'.lt_mailboxes hv) w
    (h.standing'.lt_mailboxes hw) hvw
  rw [h.size_past.1, h.standing.margin_eq] at hle
  rw [h.size_past.2, h.standing'.margin_eq] at hle'
  exact ⟨hle, hle'⟩

theorem next_mono (hv : v ∈ r.worker.producers) :
    ((x.follow E s).shared.coordinator.box v).next w ≤
      ((x.follow E (s ++ t)).shared.coordinator.box v).next w :=
  (h.grows.boxes v (h.standing.lt_mailboxes (h.mem_producers.1 hv).1)).next_le w

theorem next_le_completed (hv : v ∈ r.worker.producers) :
    ((x.follow E (s ++ t)).shared.coordinator.box v).next w ≤
      ((x.follow E (s ++ t)).shared.coordinator.box v).completed :=
  h.standing'.next_le v (h.mem_producers.1 hv).1 w

/-- The account of the round. -/
theorem round :
    r.worker.Reads (x.follow E s).shared.coordinator (x.follow E (s ++ t)).shared.coordinator
        ((x.follow E s).FoundOpen E t w) r.worker.numWorkers ∧
      (x.follow E s).journal E t w =
        r.worker.transfers (x.follow E s).shared.coordinator
            (x.follow E (s ++ t)).shared.coordinator ++
          [.entered r'.worker.periodLength] := by
  obtain ⟨b, d, hcontrol, hstage⟩ := h.exporting
  obtain ⟨b', hcontrol', hstage'⟩ := h.deciding
  have hrunner' := h.runner'
  rw [follow_append] at hrunner' ⊢
  exact h.standing.round_over h.runner hcontrol hstage hrunner' hcontrol' hstage' h.period_eq

/-- What the boundary brings: the sets between the cursors at its beginning and at its end. -/
theorem journal_eq : (x.follow E s).journal E t w =
    r.worker.producers.flatMap (fun v => (x.follow E (s ++ t)).shared.coordinator.transfers v
        (((x.follow E s).shared.coordinator.box v).next w)
        (((x.follow E (s ++ t)).shared.coordinator.box v).next w)) ++
      [.entered r'.worker.periodLength] := by
  have hevents := h.round.2
  rwa [Worker.transfers, h.worker_eq.1] at hevents

/-- It is pending. -/
theorem pending_eq : r'.worker.pending =
    r.worker.pending.append (((x.follow E s).journal E t w).flatMap Event.clauses) := by
  have hrunner' := h.runner'
  rw [follow_append] at hrunner'
  exact h.standing.pending_over h.runner hrunner' h.round.2

theorem gains : r.worker.pending.Gains (((x.follow E s).journal E t w).flatMap Event.clauses)
    r'.worker.pending := by
  rw [h.pending_eq]
  exact Batch.gains_append _ _

/-- Below the margin nothing is imported. -/
theorem idle (hp : r.worker.period < config.margin) :
    (x.follow E s).journal E t w = [.entered r'.worker.periodLength] ∧
      ∀ v ∈ r.worker.producers, ((x.follow E (s ++ t)).shared.coordinator.box v).next w =
        ((x.follow E s).shared.coordinator.box v).next w := by
  have hrest {v : Nat} (hv : v ∈ r.worker.producers) :
      ((x.follow E (s ++ t)).shared.coordinator.box v).next w ≤
        ((x.follow E s).shared.coordinator.box v).next w := by
    have hle := (h.next_le hv).2
    omega
  refine ⟨?_, fun v hv => (hrest hv).antisymm (h.next_mono hv)⟩
  rw [h.journal_eq, List.flatMap_eq_nil_iff.2 fun v hv => Coordinator.transfers_of_le (hrest hv),
    List.nil_append]

/-- In the mode that waits, just the sets of one period are imported. -/
theorem due (hmode : config.nonDeterministic = false) (hm : config.margin ≤ r.worker.period)
    (hv : v ∈ r.worker.producers) :
    let c' := (x.follow E (s ++ t)).shared.coordinator
    let q := r.worker.period - config.margin
    c'.transfers v (((x.follow E s).shared.coordinator.box v).next w) ((c'.box v).next w) =
        c'.transfer v q ∧
      ((c'.frozen? v q).isSome ∨ (c'.box v).isClosed = true ∧ (c'.box v).tail.period < q) ∧
      (c'.box v).next w =
        if (c'.box v).isClosed then min (q + 1) ((c'.box v).tail.period + 1) else q + 1 := by
  intro c' q
  obtain ⟨b, d, hcontrol, hstage⟩ := h.exporting
  obtain ⟨b', hcontrol', hstage'⟩ := h.deciding
  have hall : (x.follow E s).shared.coordinator.AllCaughtUp r.worker r.worker.period :=
    Runner.lags_boundary (h.fresh.lagging_follow hmode E s w r h.runner) hcontrol hstage
  have hall' : c'.AllCaughtUp r'.worker r'.worker.period :=
    Runner.lags_boundary (h.fresh.lagging_follow hmode E (s ++ t) w r' h.runner') hcontrol' hstage'
  have hid' := (h.standing'.runner w r' h.runner').id_eq
  obtain ⟨hvlt, hvw⟩ := h.mem_producers.1 hv
  have hbegin := hall v (h.standing.lt_mailboxes hvlt) (by rw [h.worker_eq.1]; exact hvw)
  have hend := hall' v (h.standing'.lt_mailboxes hvlt) (by rw [hid']; exact hvw)
  rw [h.worker_eq.1] at hbegin
  rw [hid', h.period_eq] at hend
  have hlag := hbegin.transfers_eq hend (by rw [h.standing'.margin_eq]; exact hm)
    (h.standing.margin_eq.trans h.standing'.margin_eq.symm)
    (h.grows.boxes v (h.standing.lt_mailboxes hvlt)) (h.standing'.lt_mailboxes hvlt)
    h.standing'.logs (h.next_le_completed hv)
  rwa [h.standing'.margin_eq] at hlag

theorem exact (hmode : config.nonDeterministic = false) (hm : config.margin ≤ r.worker.period) :
    (x.follow E s).journal E t w = r.worker.producers.flatMap (fun v =>
      (x.follow E (s ++ t)).shared.coordinator.transfer v (r.worker.period - config.margin)) ++
        [.entered r'.worker.periodLength] := by
  rw [h.journal_eq, List.flatMap_congr fun v hv => (h.due hmode hm hv).1]

theorem gains_exact (hmode : config.nonDeterministic = false)
    (hm : config.margin ≤ r.worker.period) :
    r.worker.pending.Gains (r.worker.producers.flatMap fun v =>
      (((x.follow E (s ++ t)).shared.coordinator.frozen? v (r.worker.period - config.margin)).map
        (·.1)).getD []) r'.worker.pending := by
  have hgains := h.gains
  have hnone : (Event.entered r'.worker.periodLength).clauses = [] := rfl
  rw [h.exact hmode hm, List.flatMap_append, List.flatMap_assoc, List.flatMap_singleton, hnone,
    List.append_nil] at hgains
  simpa only [Coordinator.clauses_transfer] using hgains

/-- In either mode, the worker stops where nothing more is due, or there, or complete. -/
theorem stops (hm : config.margin ≤ r.worker.period) (hv : v ∈ r.worker.producers) :
    let c' := (x.follow E (s ++ t)).shared.coordinator
    (c'.box v).next w = r.worker.period - config.margin + 1 ∨
      ((c'.box v).isClosed = true ∧ (c'.box v).next w = (c'.box v).tail.period + 1) ∨
      (x.follow E s).FoundOpen E t w v ((c'.box v).next w) := by
  intro c'
  obtain ⟨hvlt, hvw⟩ := h.mem_producers.1 hv
  obtain ⟨k, hpos, hlt, rfl⟩ := Worker.exists_neighbour (w := r.worker) (v := v) h.id_lt
    (by rw [h.worker_eq.2]; exact hvlt) (by rw [h.worker_eq.1]; exact hvw)
  have hended : r.worker.Ended c' ((x.follow E s).FoundOpen E t w) (r.worker.neighbour k) :=
    h.round.1.ended (by rw [h.standing'.margin_eq]; exact hm) k hpos hlt hlt
  unfold Worker.Ended Worker.importPeriod at hended
  rw [h.worker_eq.1, h.standing'.margin_eq] at hended
  rw [(h.standing'.logs _ (h.standing'.lt_mailboxes hvlt)).tail_period]
  have hle : (c'.box (r.worker.neighbour k)).next w ≤ _ := (h.next_le hv).2
  exact hended.imp_left fun hdue => by omega

end Crossed

end Exchange

/-! ## The result -/

/-- Worker `w` has imported the set of producer `v` for period `q`, if there is one. -/
structure Coordinator.HasImported (c : Coordinator) (w v q : Nat) : Prop where
  /-- The producer has completed the set, or it has closed its mailbox before. -/
  completed : (c.frozen? v q).isSome ∨
    (c.box v).isClosed = true ∧ (c.box v).tail.period < q
  /-- The cursor is past the set, or past the closed one if that is less. -/
  next_eq : (c.box v).next w =
    if (c.box v).isClosed then min (q + 1) ((c.box v).tail.period + 1) else q + 1

/-- From `x` to `y`, along the schedule `t`, worker `w` imports a run of sets from producer `v`, up to
period `q` at most. -/
structure Exchange.ImportsRun (E : Engine σ) (x y : Exchange σ) (t : List Nat) (w v q : Nat) :
    Prop where
  /-- The run begins at the cursor and leaves none out, -/
  next_mono : (x.shared.coordinator.box v).next w ≤ (y.shared.coordinator.box v).next w
  next_le : (y.shared.coordinator.box v).next w ≤ q + 1
  /-- all its sets are complete, -/
  completed : ∀ k < (y.shared.coordinator.box v).next w,
    (y.shared.coordinator.frozen? v k).isSome
  /-- it ends with period `q`, with the closed set, or before one that was found open, -/
  stops : (y.shared.coordinator.box v).next w = q + 1 ∨
    ((y.shared.coordinator.box v).isClosed = true ∧
      (y.shared.coordinator.box v).next w = (y.shared.coordinator.box v).tail.period + 1) ∨
    x.FoundOpen E t w v ((y.shared.coordinator.box v).next w)
  /-- and the first set that is imported later is the one at which it has ended. -/
  resumes : ∀ (u : List Nat) (k : Nat) (cs : List Clause),
    (∀ l ds, .imported v l ds ∉ y.journal E u w) →
    .imported v k cs ∈ (y.follow E u).events E w → k = (y.shared.coordinator.box v).next w

/-- From `x` to `y`, along the schedule `t`, worker `w` goes through a boundary, which takes it from
`r` to `r'`. Its imports lag by the margin. -/
structure Exchange.Lags (E : Engine σ) (config : Config) (x y : Exchange σ) (t : List Nat) (w : Nat)
    (r r' : Runner σ) : Prop where
  /-- What the worker imports is added to what is pending. -/
  gains : r.worker.pending.Gains ((x.journal E t w).flatMap Event.clauses) r'.worker.pending
  /-- Below the margin it imports nothing, -/
  idle : r.worker.period < config.margin → x.journal E t w = [.entered r'.worker.periodLength]
  /-- and no cursor moves. -/
  rests : r.worker.period < config.margin → ∀ v ∈ config.producersFor w,
    (y.shared.coordinator.box v).next w = (x.shared.coordinator.box v).next w
  /-- In the mode that waits it imports, from one producer after the other, the set of the period that
  lies `margin` behind, and acknowledges it. -/
  exact : config.margin ≤ r.worker.period → config.nonDeterministic = false →
    x.journal E t w = (config.producersFor w).flatMap (fun v =>
      y.shared.coordinator.transfer v (r.worker.period - config.margin)) ++
        [.entered r'.worker.periodLength]
  /-- What is added then is what these sets hold, in this order. -/
  gains_exact : config.margin ≤ r.worker.period → config.nonDeterministic = false →
    r.worker.pending.Gains ((config.producersFor w).flatMap fun v =>
      ((y.shared.coordinator.frozen? v (r.worker.period - config.margin)).map (·.1)).getD [])
      r'.worker.pending
  /-- Every producer has such a set, unless it has closed its mailbox before. -/
  imported : config.margin ≤ r.worker.period → config.nonDeterministic = false →
    ∀ v ∈ config.producersFor w,
      y.shared.coordinator.HasImported w v (r.worker.period - config.margin)
  /-- In either mode it imports the sets between the cursors at the beginning and at the end, -/
  between : x.journal E t w = (config.producersFor w).flatMap (fun v =>
    y.shared.coordinator.transfers v ((x.shared.coordinator.box v).next w)
      ((y.shared.coordinator.box v).next w)) ++ [.entered r'.worker.periodLength]
  /-- a run of sets of every producer, up to the one that is due. -/
  runs : config.margin ≤ r.worker.period → ∀ v ∈ config.producersFor w,
    x.ImportsRun E y t w v (r.worker.period - config.margin)

/-- A boundary imports a run of sets from every producer. -/
theorem Exchange.Crossed.importsRun {config : Config} {x : Exchange σ} {E : Engine σ} {s t : List Nat}
    {w v : Nat} {r r' : Runner σ} (h : x.Crossed E config s t w r r')
    (hm : config.margin ≤ r.worker.period) (hv : v ∈ r.worker.producers) :
    (x.follow E s).ImportsRun E (x.follow E (s ++ t)) t w v (r.worker.period - config.margin) := by
  have hvlt := h.standing'.lt_mailboxes (h.mem_producers.1 hv).1
  obtain ⟨b', hcontrol', hstage'⟩ := h.deciding
  refine ⟨h.next_mono hv, ?_, fun k hk => ?_, h.stops hm hv, fun u k cs hnot himported => ?_⟩
  · exact (h.next_le hv).2.trans (Nat.sub_add_comm hm).le
  · rw [Coordinator.frozen?_eq hvlt, (h.standing'.logs v hvlt).frozen?_isSome_iff]
    exact hk.trans_le (h.next_le_completed hv)
  · exact h.standing'.next_eq_of_imported h.runner'
      (Runner.unacknowledged_inside hcontrol' hstage' (by simp) v) hnot himported

namespace Portfolio

/-- Imports lag by exactly the margin. Take a boundary of worker `w` at the end of a period, from
its exports to the moment when the next period has been entered. If the period is below the margin,
nothing is imported and no cursor moves. Otherwise, in the mode that waits, the worker imports just
the sets of the period that lies `margin` behind, and in either mode a run of sets up to there. -/
theorem import_lag (E : Engine σ) {engines : List σ} {config : Config} {sensors : Sensors}
    {p : Portfolio σ} (h : launch engines config sensors = .ok p) (s t : List Nat) {w : Nat}
    {r r' : Runner σ} {b b' : Boundary} {d : Drain}
    (hr : (p.toExchange.follow E s).runners[w]? = some r) (hcontrol : r.control = .boundary b)
    (hstage : b.stage = .exporting d)
    (hr' : (p.toExchange.follow E (s ++ t)).runners[w]? = some r')
    (hcontrol' : r'.control = .boundary b') (hstage' : b'.stage = .deciding)
    (hperiod : r'.worker.period = r.worker.period + 1) :
    (p.toExchange.follow E s).Lags E config (p.toExchange.follow E (s ++ t)) t w r r' := by
  have hcross : p.toExchange.Crossed E config s t w r r' :=
    ⟨fresh_of_launch h, hr, ⟨b, d, hcontrol, hstage⟩, hr', ⟨b', hcontrol', hstage'⟩, hperiod⟩
  have hmem {v : Nat} (hv : v ∈ config.producersFor w) : v ∈ r.worker.producers := by
    rwa [hcross.producers_eq]
  refine ⟨hcross.gains, fun hp => (hcross.idle hp).1, fun hp v hv => (hcross.idle hp).2 v (hmem hv),
    fun hm hmode => ?_, fun hm hmode => ?_, fun hm hmode v hv => ?_, ?_,
    fun hm v hv => hcross.importsRun hm (hmem hv)⟩
  · rw [hcross.exact hmode hm, hcross.producers_eq]
  · rw [← hcross.producers_eq]
    exact hcross.gains_exact hmode hm
  · obtain ⟨-, hcompleted, hnext⟩ := hcross.due hmode hm (hmem hv)
    exact ⟨hcompleted, hnext⟩
  · rw [hcross.journal_eq, hcross.producers_eq]

/-- With margin `1` the last of three scripted engines imports, at the end of period `1`, what the
other two have completed for period `0`. -/
theorem import_lag_scripted : ∃ p r r',
    launch [{ script := { offers := [{ literals := [1, 2] }] } },
      { script := { offers := [{ literals := [3] }, { literals := [4, 5] }] } }, { script := {} }]
      { numWorkers := 3, margin := 1, periodLength := 10 } {} = .ok p ∧
    let s := (List.replicate 17 [0, 1, 2]).flatten
    let t := (List.replicate 13 [0, 1, 2]).flatten
    let y := p.toExchange.follow Scripted.engine (s ++ t)
    (p.toExchange.follow Scripted.engine s).runners[2]? = some r ∧ y.runners[2]? = some r' ∧
    r.worker.period = 1 ∧ r'.worker.period = 2 ∧
    r'.worker.pending.units.toList = r.worker.pending.units.toList ++ [⟨[3], by decide⟩] ∧
    r'.worker.pending.clauses.toList =
      r.worker.pending.clauses.toList ++ [⟨[1, 2], by decide⟩, ⟨[4, 5], by decide⟩] ∧
    (y.shared.coordinator.box 0).next 2 = 1 := by
  obtain ⟨p, hp, hcheck⟩ := exists_eq_ok_of_check
    (x := launch ([{ script := { offers := [{ literals := [1, 2] }] } },
      { script := { offers := [{ literals := [3] }, { literals := [4, 5] }] } },
      { script := {} }] : List Scripted) { numWorkers := 3, margin := 1, periodLength := 10 } {})
    (q := fun p =>
      let s := (List.replicate 17 [0, 1, 2]).flatten
      let t := (List.replicate 13 [0, 1, 2]).flatten
      let y := p.toExchange.follow Scripted.engine (s ++ t)
      ((p.toExchange.follow Scripted.engine s).runners[2]?.any fun r : Runner Scripted =>
        r.control == .boundary ⟨{ conflicts := 2, propagations := 20 }, .exporting {}⟩ &&
          r.worker.period == 1) &&
      (y.runners[2]?.any fun r : Runner Scripted =>
        r.control == .boundary ⟨{ conflicts := 2, propagations := 20 }, .deciding⟩ &&
          r.worker.period == 2) &&
      !(y.shared.coordinator.box 0).isClosed &&
      (y.shared.coordinator.frozen? 0 0).map (·.1) == some [⟨[1, 2], by decide⟩] &&
      (y.shared.coordinator.frozen? 1 0).map (·.1) ==
        some [⟨[3], by decide⟩, ⟨[4, 5], by decide⟩]) (by decide +kernel)
  simp only [Bool.and_eq_true, Bool.not_eq_true', beq_iff_eq, Option.any_eq_true] at hcheck
  obtain ⟨⟨⟨⟨⟨r, hr, hcontrol, hperiod⟩, r', hr', hcontrol', hperiod'⟩, hopen⟩, hfirst⟩,
    hsecond⟩ := hcheck
  have hlags := import_lag Scripted.engine hp _ _ hr hcontrol rfl hr' hcontrol' rfl
    (by rw [hperiod, hperiod'])
  have hgains := hlags.gains_exact hperiod.ge rfl
  rw [hperiod] at hgains
  have hsets : ([0, 1] : List Nat).flatMap (fun v =>
      (((p.toExchange.follow Scripted.engine ((List.replicate 17 [0, 1, 2]).flatten ++
        (List.replicate 13 [0, 1, 2]).flatten)).shared.coordinator.frozen? v 0).map
          (·.1)).getD []) =
      [⟨[1, 2], by decide⟩, ⟨[3], by decide⟩, ⟨[4, 5], by decide⟩] := by
    rw [List.flatMap_cons, List.flatMap_cons, hfirst, hsecond]
    rfl
  have hproducers : Config.producersFor { numWorkers := 3, margin := 1, periodLength := 10 } 2 =
      [0, 1] := by decide
  obtain ⟨hunits, hclauses⟩ : r.worker.pending.Gains
      [⟨[1, 2], by decide⟩, ⟨[3], by decide⟩, ⟨[4, 5], by decide⟩] r'.worker.pending := by
    rw [hproducers] at hgains
    exact hsets ▸ hgains
  refine ⟨p, r, r', hp, hr, hr', hperiod, hperiod', hunits, hclauses, ?_⟩
  · rw [(hlags.imported hperiod.ge rfl 0 (by decide)).next_eq, hopen, hperiod]
    rfl

end Portfolio

end ClauseExchange
