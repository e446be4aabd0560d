import ClauseExchange.Engine.Scripted
import ClauseExchange.Proofs.Exchange.Sums

/-!
# The adaptive length of periods

In the mode that waits, every worker works out the length of its next period from the candidates in
the sets that it has read at the boundary, in its own order, and from a candidate of its own that it
looks up. When it has, no further set of the period in question can appear
(`Coordinator.Settled`), so that what it has worked out is a function of the sets alone: the mean of
the candidates of all workers that ever have a set for that period.

* `Runner.settled_of_caughtUp` says that the sets that a worker has read and its own are all there
  are.
* `Runner.Paces.entering_step` says that the length with which a worker is about to enter a period is
  settled, `Runner.Paces.fixes_step` that the length of its period stays so.
* `Portfolio.adaptive_length` puts it together for every schedule.
-/

namespace ClauseExchange

namespace Coordinator

/-- The workers whose mailbox has a set for a period. -/
def present (c : Coordinator) (q : Nat) : Finset Nat :=
  (Finset.range c.numWorkers).filter fun v => (c.set? v q).isSome

/-- All sets of a period are complete, and there will be no others. -/
def Settled (c : Coordinator) (q : Nat) : Prop :=
  ∀ v < c.numWorkers, (c.frozen? v q).isSome ∨
    (c.box v).isClosed = true ∧ (c.box v).past.size < q

/-- The length of period `p` is settled as `length`. -/
structure Fixes (c : Coordinator) (config : Config) (p length : Nat) : Prop where
  initial : p ≤ config.margin → length = config.periodLength
  settled : config.margin < p → c.Settled (p - 1 - config.margin)
  mean : config.margin < p → length =
    Pace.clamp config (c.mean (p - 1 - config.margin) (c.present (p - 1 - config.margin)))

variable {c c' : Coordinator} {v q p : Nat}

theorem mem_present : v ∈ c.present q ↔ v < c.numWorkers ∧ q ≤ (c.box v).past.size := by
  rw [present, Finset.mem_filter, Finset.mem_range]
  refine and_congr_right fun hv => ?_
  rw [set?_eq hv, Mailbox.set?_isSome_iff]

/-! ## What is settled stays so -/

namespace Settled

theorem frozen_of_mem (h : c.Settled q) (hv : v ∈ c.present q) : (c.frozen? v q).isSome := by
  obtain ⟨hlt, hle⟩ := mem_present.1 hv
  exact (h v hlt).resolve_right fun hclosed => absurd hle (not_le.2 hclosed.2)

theorem grows (h : c.Settled q) (hgrows : c.Grows c') : c'.Settled q := by
  intro v hv
  rw [hgrows.numWorkers_eq] at hv
  rcases h v hv with hf | ⟨hclosed, hlt⟩
  · exact .inl (by rwa [hgrows.frozen_eq hv hf])
  · obtain ⟨hclosed', hsize⟩ := (hgrows.boxes v hv).closed hclosed
    exact .inr ⟨hclosed', by rwa [hsize]⟩

theorem present_eq (h : c.Settled q) (hgrows : c.Grows c') : c'.present q = c.present q := by
  ext v
  rw [mem_present, mem_present, hgrows.numWorkers_eq]
  refine and_congr_right fun hv => ⟨fun hle => ?_, fun hle => ?_⟩
  · rcases h v hv with hf | ⟨hclosed, hlt⟩
    · rw [frozen?_eq hv, Mailbox.frozen?] at hf
      rw [← Mailbox.set?_isSome_iff]
      exact Option.isSome_of_isSome_bind hf
    · rw [((hgrows.boxes v hv).closed hclosed).2] at hle
      omega
  · exact hle.trans (hgrows.boxes v hv).past_le

theorem mean_eq (h : c.Settled q) (hgrows : c.Grows c') :
    c'.mean q (c'.present q) = c.mean q (c.present q) := by
  rw [mean, mean, h.present_eq hgrows]
  congr 1
  exact Finset.sum_congr rfl fun v hv =>
    hgrows.candidate_eq (mem_present.1 hv).1 (h.frozen_of_mem hv)

end Settled

theorem Fixes.grows {config : Config} {length : Nat} (h : c.Fixes config p length)
    (hgrows : c.Grows c') : c'.Fixes config p length where
  initial := h.initial
  settled hp := (h.settled hp).grows hgrows
  mean hp := by rw [(h.settled hp).mean_eq hgrows, ← h.mean hp]

end Coordinator

/-- What worker `w` has counted in a stage of a boundary. -/
def Stage.Counts (c : Coordinator) (w : Worker) : Stage → Prop
  | .fetching _ t | .reading _ t _ | .averaging t =>
    t.Counts c (w.importPeriod c.margin) (c.readBy w.id (w.importPeriod c.margin))
  | .acknowledging offset t q =>
    q = w.importPeriod c.margin ∧
      t.Counts c q (insert (w.neighbour offset) (c.readBy w.id q))
  | .entering length => c.Fixes w.config (w.period + 1) length
  | _ => True

variable {σ : Type}

/-- The length of a worker's period is settled, and so is what it has counted for the next. -/
structure Runner.Paces (c : Coordinator) (r : Runner σ) : Prop where
  fixes : c.Fixes r.worker.config r.worker.period r.worker.periodLength
  counts : ∀ b, r.control = .boundary b → b.stage.Counts c r.worker

namespace Runner

variable {c c' : Coordinator} {r r' : Runner σ} {events : List Event}

/-- In the mode that waits all sets that are read count. -/
theorem Paces.of_sums (hfixes : c.Fixes r.worker.config r.worker.period r.worker.periodLength)
    (hentering : ∀ b length, r.control = .boundary b → b.stage = .entering length →
      c.Fixes r.worker.config (r.worker.period + 1) length)
    (hsums : r.Sums c) (hlags : r.control.Lags c r.worker) (hfits : r.control.Fits c r.worker) :
    r.Paces c := by
  refine ⟨hfixes, fun b hr => ?_⟩
  have hcounts := hsums.counts b hr
  cases hb : b.stage with
  | fetching | reading | averaging =>
    rw [hb] at hcounts
    exact hcounts
  | acknowledging offset t q =>
    obtain ⟨-, -, -, hm, hholds, -⟩ := fits_boundary hfits hr hb
    have hdue := (lags_boundary hlags hr hb _ hholds.offset_pos hholds.offset_lt).2 le_rfl
    obtain rfl : q = r.worker.importPeriod c.margin := (caughtUp_of_holds hholds hm (.inl hdue)).2
    rw [hb] at hcounts
    change t.Counts c _ (if _ = _ then _ else _) at hcounts
    rw [if_pos rfl] at hcounts
    exact ⟨rfl, hcounts⟩
  | entering length => exact hentering b length hr hb
  | _ => trivial

/-- The length with which a worker is about to enter a period is settled. -/
theorem Paces.entering (h : r.Paces c) {b : Boundary} {length : Nat} (hr : r.control = .boundary b)
    (hb : b.stage = .entering length) : c.Fixes r.worker.config (r.worker.period + 1) length := by
  have hcounts := h.counts b hr
  rw [hb] at hcounts
  exact hcounts

/-! ## A complete count -/

/-- When a worker has caught up, the sets that it has read and its own are all there are. -/
theorem settled_of_caughtUp (hid : r.worker.id < c.numWorkers) (hc : c.AllLogs)
    (hle : ∀ v < c.numWorkers, (c.box v).next r.worker.id ≤ (c.box v).completed)
    (hmargin : c.margin ≤ r.worker.period)
    (hpast : (c.box r.worker.id).past.size = r.worker.period + 1)
    (hall : c.AllCaughtUp r.worker (r.worker.period + 1)) :
    c.Settled (r.worker.importPeriod c.margin) ∧
      c.present (r.worker.importPeriod c.margin) =
        insert r.worker.id (c.readBy r.worker.id (r.worker.importPeriod c.margin)) := by
  have hcases : ∀ v < c.numWorkers,
      r.worker.importPeriod c.margin < (c.box v).completed ∧
          (v = r.worker.id ∨ r.worker.importPeriod c.margin < (c.box v).next r.worker.id) ∨
        (c.box v).isClosed = true ∧ (c.box v).past.size < r.worker.importPeriod c.margin ∧
          v ≠ r.worker.id ∧ (c.box v).next r.worker.id ≤ r.worker.importPeriod c.margin := by
    intro v hv
    have hcompleted : (c.box v).past.size ≤ (c.box v).completed := Nat.le_add_right _ _
    unfold Worker.importPeriod
    by_cases hvw : v = r.worker.id
    · subst hvw
      exact .inl ⟨by omega, .inl rfl⟩
    · have hle := hle v hv
      rcases hall v hv hvw with hnext | ⟨hclosed, hnext, hsize⟩
      · exact .inl ⟨by omega, .inr (by omega)⟩
      · have hfull : (c.box v).completed = (c.box v).past.size + 1 := by
          rw [Mailbox.completed, if_pos hclosed]
        rcases Nat.lt_or_ge (c.box v).past.size (r.worker.period - c.margin) with hlt | hge
        · exact .inr ⟨hclosed, hlt, hvw, by omega⟩
        · exact .inl ⟨by omega, .inr (by omega)⟩
  refine ⟨fun v hv => ?_, ?_⟩
  · rw [Coordinator.frozen?_eq hv, (hc v hv).frozen?_isSome_iff]
    exact (hcases v hv).imp And.left fun h => ⟨h.1, h.2.1⟩
  · ext v
    rw [Coordinator.mem_present, Finset.mem_insert, Coordinator.mem_readBy]
    constructor
    · rintro ⟨hv, hsize⟩
      rcases hcases v hv with ⟨-, hown | hread⟩ | ⟨-, hlt, -⟩
      · exact .inl hown
      · by_cases hvw : v = r.worker.id
        · exact .inl hvw
        · exact .inr ⟨hv, hvw, hread⟩
      · omega
    · rintro (rfl | ⟨hv, hvw, hread⟩)
      · exact ⟨hid, by rw [hpast]; exact (Nat.sub_le _ _).trans (Nat.le_succ _)⟩
      · have := (hc v hv).next_le r.worker.id
        exact ⟨hv, by omega⟩

/-- The length that follows from a complete count. -/
theorem nextLength_eq (hid : r.worker.id < c.numWorkers) (hc : c.AllLogs)
    (hle : ∀ v < c.numWorkers, (c.box v).next r.worker.id ≤ (c.box v).completed)
    (hadaptive : r.worker.config.isAdaptive = true) (hmargin : c.margin ≤ r.worker.period)
    (hpast : (c.box r.worker.id).past.size = r.worker.period + 1)
    (hall : c.AllCaughtUp r.worker (r.worker.period + 1)) {t : Tally}
    (ht : t.Counts c (r.worker.importPeriod c.margin)
      (c.readBy r.worker.id (r.worker.importPeriod c.margin))) :
    r.worker.nextLength c t =
      Pace.clamp r.worker.config (c.mean (r.worker.importPeriod c.margin)
        (c.present (r.worker.importPeriod c.margin))) := by
  have hpresent := (settled_of_caughtUp hid hc hle hmargin hpast hall).2
  rw [nextLength_of_counts hid hc hadaptive hmargin hpast ht, hpresent]

/-- In the end the next length is settled. -/
theorem Paces.average (h : r.Paces c) (hid : r.worker.id < c.numWorkers) (hc : c.AllLogs)
    (hle : ∀ v < c.numWorkers, (c.box v).next r.worker.id ≤ (c.box v).completed)
    (hmargin : c.margin = r.worker.config.margin)
    (hadaptive : r.worker.config.isAdaptive = true) {b : Boundary} {t : Tally}
    (hfits : r.control.Fits c r.worker) (hlags : r.control.Lags c r.worker)
    (hr : r.control = .boundary b) (hb : b.stage = .averaging t) :
    c.Fixes r.worker.config (r.worker.period + 1) (r.worker.nextLength c t) := by
  obtain ⟨-, hpast, -, hm⟩ := fits_boundary hfits hr hb
  have hall : c.AllCaughtUp r.worker (r.worker.period + 1) := lags_boundary hlags hr hb
  have hcounts := h.counts _ hr
  rw [hb] at hcounts
  have hsettled := (settled_of_caughtUp hid hc hle hm hpast hall).1
  have hmean := nextLength_eq hid hc hle hadaptive hm hpast hall hcounts
  unfold Worker.importPeriod at hsettled hmean
  rw [hmargin] at hm hsettled hmean
  exact ⟨fun hp => by omega, fun _ => hsettled, fun _ => hmean⟩

/-! ## A runner's own step -/

/-- A worker enters a period with a length that is settled. -/
theorem Paces.fixes_step (h : r.Paces c) (hstep : Step r c events r' c') (hgrows : c.Grows c') :
    c'.Fixes r'.worker.config r'.worker.period r'.worker.periodLength := by
  rw [hstep.same.config_eq]
  rcases hstep.length_cases with ⟨hperiod, hlength⟩ | ⟨b, length, hr, hb, hperiod, hlength⟩
  · rw [hperiod, hlength]
    exact h.fixes.grows hgrows
  · rw [hperiod, hlength]
    exact (h.entering hr hb).grows hgrows

/-- The length that comes next is the initial one in the first periods, and else it follows from a
complete count. -/
theorem Paces.entering_step (h : r.Paces c) (hstep : Step r c events r' c') (hgrows : c.Grows c')
    (hid : r.worker.id < c.numWorkers) (hc : c.AllLogs) (hmargin : c.margin = r.worker.config.margin)
    (hle : ∀ v < c.numWorkers, (c.box v).next r.worker.id ≤ (c.box v).completed)
    (hadaptive : r.worker.config.isAdaptive = true) (hfits : r.control.Fits c r.worker)
    (hlags : r.control.Lags c r.worker) {b' : Boundary} {length : Nat}
    (hr' : r'.control = .boundary b') (hb' : b'.stage = .entering length) :
    c'.Fixes r'.worker.config (r'.worker.period + 1) length := by
  rcases hstep.entering_cases hr' hb' with ⟨rfl, rfl⟩ | ⟨hq, b, hr, hcases⟩
  · exact h.entering hr' hb'
  · rw [hq.config_eq, hq.period_eq]
    refine Coordinator.Fixes.grows ?_ hgrows
    rcases hcases with ⟨hb, hperiod, rfl⟩ | ⟨t, hb, rfl⟩
    · rw [hmargin] at hperiod
      exact ⟨fun _ => h.fixes.initial hperiod.le, fun h => by omega, fun h => by omega⟩
    · exact h.average hid hc hle hmargin hadaptive hfits hlags hr hb

end Runner

/-! ## Whole exchanges -/

namespace Exchange

variable {config : Config} {x : Exchange σ}

/-- The lengths of all workers' periods are settled. -/
def Paced (x : Exchange σ) : Prop :=
  ∀ (i : Nat) (r : Runner σ), x.runners[i]? = some r → r.Paces x.shared.coordinator

theorem Fresh.paced (h : x.Fresh config) : x.Paced := by
  intro i r hr
  refine ⟨?_, fun b hb => ?_⟩
  · rw [h.worker hr]
    exact ⟨fun _ => rfl, fun hp => absurd hp (Nat.not_lt_zero _), fun hp =>
      absurd hp (Nat.not_lt_zero _)⟩
  · rw [h.control_eq i r hr] at hb
    cases hb

theorem Paced.turn (h : x.Paced) (hx : x.Standing config) (hlag : x.Lagging) {E : Engine σ} {i : Nat}
    (hlag' : (x.turn E i).Lagging)
    (hsums : ∀ (j : Nat) (s : Runner σ), (x.turn E i).runners[j]? = some s →
      s.Sums (x.turn E i).shared.coordinator)
    (hadaptive : config.isAdaptive = true) : (x.turn E i).Paced := by
  intro j s hs
  have hfits := ((hx.turn E i).runner j s hs).fits
  suffices hboth : (x.turn E i).shared.coordinator.Fixes s.worker.config s.worker.period
      s.worker.periodLength ∧ ∀ b length, s.control = .boundary b → b.stage = .entering length →
        (x.turn E i).shared.coordinator.Fixes s.worker.config (s.worker.period + 1) length from
    .of_sums hboth.1 hboth.2 (hsums j s hs) (hlag' j s hs) hfits
  rcases hx.turn_cases E i with ⟨heq, -⟩ | ⟨r, r', hr, hstep, heff, hrunners⟩
  · rw [heq] at hs ⊢
    exact ⟨(h j s hs).fixes, fun b length => (h j s hs).entering⟩
  · have hi := hx.lt_mailboxes (hx.lt_numWorkers hr)
    have hgrows := heff.allGrows hi hx.logs
    rw [hrunners] at hs
    split at hs
    · obtain rfl := Option.some.inj hs
      obtain ⟨hid, -, hconfig, -, hfits⟩ := hx.runner i r hr
      refine ⟨(h i r hr).fixes_step hstep hgrows, fun b length => (h i r hr).entering_step hstep hgrows
        (by rw [hid]; exact hi) hx.logs (by rw [hconfig]; exact hx.margin_eq) (fun v hv => ?_)
        (by rw [hconfig]; exact hadaptive) hfits (hlag i r hr)⟩
      rw [hx.numWorkers_eq] at hv
      exact hx.next_le v hv _
    · exact ⟨(h j s hs).fixes.grows hgrows, fun b length hb hstage =>
        ((h j s hs).entering hb hstage).grows hgrows⟩

/-- All lengths are settled after a schedule. -/
theorem Fresh.paced_follow (h : x.Fresh config) (hmode : config.nonDeterministic = false)
    (hadaptive : config.isAdaptive = true) (E : Engine σ) (schedule : List Nat) :
    (x.follow E schedule).Paced := by
  induction schedule using List.reverseRecOn with
  | nil => exact h.paced
  | append_singleton t i ih =>
    have hlag := h.lagging_follow hmode E (t ++ [i])
    have hsums (j : Nat) (s : Runner σ) := h.sums_follow hadaptive E (t ++ [i]) (w := j) (r := s)
    rw [follow_concat] at hlag hsums ⊢
    exact ih.turn (h.standing.follow E t) (h.lagging_follow hmode E t) hlag hsums hadaptive

/-- Mailboxes only grow from one moment of a schedule to its end. -/
theorem Standing.grows_take (h : x.Standing config) (E : Engine σ) (schedule : List Nat) (n : Nat) :
    (x.follow E (schedule.take n)).shared.coordinator.Grows
      (x.follow E schedule).shared.coordinator := by
  have hgrows := (h.follow E (schedule.take n)).allGrows_follow E (schedule.drop n)
  rwa [← follow_append, List.take_append_drop] at hgrows

/-- What is settled for a worker at some moment is settled by the sets that there are later. -/
theorem Fresh.fixes_of_take (h : x.Fresh config) (hmode : config.nonDeterministic = false)
    (hadaptive : config.isAdaptive = true) {E : Engine σ} {schedule : List Nat} {n w : Nat}
    {r : Runner σ} (hr : (x.follow E (schedule.take n)).runners[w]? = some r) :
    (x.follow E schedule).shared.coordinator.Fixes config r.worker.period
      r.worker.periodLength := by
  have hfixes := (h.paced_follow hmode hadaptive E (schedule.take n) w r hr).fixes
  rw [((h.standing.follow E (schedule.take n)).runner w r hr).config_eq] at hfixes
  exact hfixes.grows (h.standing.grows_take E schedule n)

/-- A worker has a set for every period that it has left behind. -/
theorem Standing.mem_present (h : x.Standing config) {E : Engine σ} {schedule : List Nat}
    {n w : Nat} {r : Runner σ} (hr : (x.follow E (schedule.take n)).runners[w]? = some r) {q : Nat}
    (hq : q ≤ r.worker.period) : w ∈ (x.follow E schedule).shared.coordinator.present q := by
  have hx := h.follow E (schedule.take n)
  have hw := hx.lt_mailboxes (hx.lt_numWorkers hr)
  have hgrows := h.grows_take E schedule n
  obtain ⟨hid, -, -, -, hfits⟩ := hx.runner w r hr
  have hsize := hfits.size_past.1
  rw [hid] at hsize
  refine Coordinator.mem_present.2 ⟨by rw [hgrows.numWorkers_eq]; exact hw, ?_⟩
  exact hq.trans (hsize.trans (hgrows.boxes w hw).past_le)

end Exchange

/-! ## The result -/

/-- The length of the present period of worker `w`, whose runner is `r`, follows from the sets that
there are. -/
structure Coordinator.SetsLength (c : Coordinator) (config : Config) (w : Nat) (r : Runner σ) :
    Prop where
  /-- One of the first `margin + 1` periods has the initial length. -/
  initial : r.worker.period ≤ config.margin → r.worker.periodLength = config.periodLength
  /-- For a later one, the sets of the period count that lies `margin + 1` behind. The worker itself
  has one, -/
  own : config.margin < r.worker.period → w ∈ c.present (r.worker.period - 1 - config.margin)
  /-- all of them are complete, -/
  completed : config.margin < r.worker.period →
    ∀ v ∈ c.present (r.worker.period - 1 - config.margin),
      (c.frozen? v (r.worker.period - 1 - config.margin)).isSome
  /-- and the length is the mean of their candidates, rounded down, but at least the lower bound, at
  most the upper one if that is positive, and at least `1`. -/
  length_eq : config.margin < r.worker.period →
    let q := r.worker.period - 1 - config.margin
    let mean := (∑ v ∈ c.present q, c.candidate v q) / (c.present q).card
    r.worker.periodLength = max 1 (if config.adaptiveUpper = 0 then max mean config.adaptiveLower
      else min (max mean config.adaptiveLower) config.adaptiveUpper)
  /-- So every length is at least `1`, -/
  one_le : 1 ≤ r.worker.periodLength
  /-- and a later one is within the bounds, which do not cross. -/
  lower_le : config.margin < r.worker.period → config.adaptiveLower ≤ r.worker.periodLength
  le_upper : config.margin < r.worker.period → 0 < config.adaptiveUpper →
    r.worker.periodLength ≤ config.adaptiveUpper

/-- A length that is settled is within the bounds of a valid configuration. -/
theorem Coordinator.Fixes.setsLength {c : Coordinator} {config : Config} {w : Nat} {r : Runner σ}
    (h : c.Fixes config r.worker.period r.worker.periodLength)
    (hvalid : config.validate = .ok ()) (hlength : 1 ≤ config.periodLength)
    (hown : config.margin < r.worker.period →
      w ∈ c.present (r.worker.period - 1 - config.margin)) : c.SetsLength config w r := by
  have hbounds := Pace.clamp_bounds hvalid
  refine ⟨h.initial, hown, fun hp v => (h.settled hp).frozen_of_mem, fun hp => ?_, ?_, fun hp => ?_,
    fun hp => ?_⟩
  · rw [h.mean hp, Pace.clamp_eq]
    rfl
  · rcases Nat.lt_or_ge config.margin r.worker.period with hp | hp
    · rw [h.mean hp]
      exact (hbounds _).1
    · rw [h.initial hp]
      exact hlength
  · rw [h.mean hp]
    rcases Nat.eq_zero_or_pos config.adaptiveLower with hlower | hlower
    · rw [hlower]
      exact Nat.zero_le _
    · exact (hbounds _).2.1 hlower
  · rw [h.mean hp]
    exact (hbounds _).2.2

namespace Portfolio

/-- All workers agree on the adaptive length of a period. In the mode that waits, a worker in one of
the first `margin + 1` periods has the initial length. In a later period `p` the length is the mean
of the candidates of all workers whose mailboxes ever have a set for period `p - 1 - margin`,
rounded down and fitted to the bounds; all these sets are complete, and the worker's own is among
them. So two workers in the same period have the same length. -/
theorem adaptive_length (E : Engine σ) {engines : List σ} {config : Config} {sensors : Sensors}
    {p : Portfolio σ} (h : launch engines config sensors = .ok p)
    (hmode : config.nonDeterministic = false) (hadaptive : 0 < config.adaptiveConflicts)
    (schedule : List Nat) {n w : Nat} {r : Runner σ}
    (hr : (p.toExchange.follow E (schedule.take n)).runners[w]? = some r) :
    (p.toExchange.follow E schedule).shared.coordinator.SetsLength config w r ∧
    ∀ (n' w' : Nat) (r' : Runner σ),
      (p.toExchange.follow E (schedule.take n')).runners[w']? = some r' →
        r'.worker.period = r.worker.period → r'.worker.periodLength = r.worker.periodLength := by
  have hfresh := fresh_of_launch h
  have hadaptive : config.isAdaptive = true := decide_eq_true hadaptive
  have hfixes := hfresh.fixes_of_take hmode hadaptive hr
  refine ⟨hfixes.setsLength (validate_of_launch h) (one_le_periodLength_of_launch h) fun hp =>
    hfresh.standing.mem_present hr (by omega), fun n' w' r' hr' hperiod => ?_⟩
  have hfixes' := hfresh.fixes_of_take hmode hadaptive hr'
  rw [hperiod] at hfixes'
  rcases Nat.lt_or_ge config.margin r.worker.period with hp | hp
  · rw [hfixes'.mean hp, hfixes.mean hp]
  · rw [hfixes'.initial hp, hfixes.initial hp]

/-- Two scripted engines differ in the work that a conflict takes them. The candidates in their sets
of period `0` are `10` and `6`, and both enter period `2` with the length `8`. -/
theorem adaptive_length_scripted : ∃ p r r',
    launch [{ script := {} }, { script := { work := 5, conflicts := 3 } }]
      { numWorkers := 2, margin := 1, periodLength := 10, adaptiveConflicts := 1
        adaptiveLower := 2, adaptiveUpper := 20, adaptiveSmoothing := 0.5 } {} = .ok p ∧
    let x := p.toExchange.follow Scripted.engine (List.replicate 36 [0, 1]).flatten
    x.runners[0]? = some r ∧ x.runners[1]? = some r' ∧ r.worker.period = 2 ∧
    r'.worker.period = 2 ∧ x.shared.coordinator.candidate 0 0 = 10 ∧
    x.shared.coordinator.candidate 1 0 = 6 ∧ r.worker.periodLength = 8 ∧
    r'.worker.periodLength = 8 := by
  obtain ⟨p, hp, hcheck⟩ := exists_eq_ok_of_check
    (x := launch ([{ script := {} }, { script := { work := 5, conflicts := 3 } }] : List Scripted)
      { numWorkers := 2, margin := 1, periodLength := 10, adaptiveConflicts := 1
        adaptiveLower := 2, adaptiveUpper := 20, adaptiveSmoothing := 0.5 } {})
    (q := fun p =>
      let x := p.toExchange.follow Scripted.engine (List.replicate 36 [0, 1]).flatten
      x.runners[0]?.any (fun r : Runner Scripted => r.worker.period == 2) &&
        x.runners[1]?.any (fun r : Runner Scripted => r.worker.period == 2) &&
        x.shared.coordinator.present 0 == {0, 1} &&
        x.shared.coordinator.candidate 0 0 == 10 &&
        x.shared.coordinator.candidate 1 0 == 6) (by decide +kernel)
  simp only [Bool.and_eq_true, beq_iff_eq, Option.any_eq_true] at hcheck
  obtain ⟨⟨⟨⟨⟨r, hr, hperiod⟩, r', hr', hperiod'⟩, hpresent⟩, hfirst⟩, hsecond⟩ := hcheck
  have hwhole : (List.replicate 36 [0, 1]).flatten.take 72 = (List.replicate 36 [0, 1]).flatten :=
    rfl
  obtain ⟨hlength, hsame⟩ := adaptive_length Scripted.engine hp rfl (by decide)
    (List.replicate 36 [0, 1]).flatten (n := 72) (by rw [hwhole]; exact hr)
  have height : r.worker.periodLength = 8 := by
    rw [hlength.length_eq (by rw [hperiod]; decide), hperiod]
    dsimp only
    rw [hpresent, Finset.sum_pair (by decide), hfirst, hsecond]
    rfl
  refine ⟨p, r, r', hp, hr, hr', hperiod, hperiod', hfirst, hsecond, height, ?_⟩
  rw [hsame 72 1 r' (by rw [hwhole]; exact hr') (hperiod'.trans hperiod.symm), height]

end Portfolio

end ClauseExchange
