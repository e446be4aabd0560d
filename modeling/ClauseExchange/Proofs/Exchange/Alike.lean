import ClauseExchange.Proofs.Exchange.Record

/-!
# What a step depends on

A runner's step depends on what the workers share in few ways. `Coordinator.Alike i c d` says that
worker `i` has done the same in `c` and in `d`: its own mailbox holds the same, and it has read the
other ones equally far. `Control.Sees` says that what it is about to read of the others is the same
as well.

* `Coordinator.Effect.alike` says that a call of another worker keeps `Alike`.
* `Runner.AlikeIn.step_congr` says that then the step is the same, unless it breaks a rule.

The times that the stopwatches show depend on the schedule. They reach an engine that looks at its
worker, and the statistics that are handed in, and nothing else: `Engine.Overlooks` says of an engine
that two measurements are all the same to it, and `Runner.untimed` leaves the times out of the
statistics.
-/

namespace ClauseExchange

/-! ## Mailboxes that hold the same -/

namespace Mailbox

variable {m n : Mailbox}

theorem contents_append_congr (h : m.contents = n.contents) (clause : Clause) :
    (m.append clause).2.contents = (n.append clause).2.contents := by
  have hclosed := isClosed_congr h
  rw [append_eq, append_eq, hclosed]
  split
  · exact h
  · obtain ⟨hpast, htail⟩ := contents_eq_iff.1 h
    obtain ⟨happended, hnext⟩ := Prod.mk.inj htail
    refine contents_eq_iff.2 ⟨hpast, ?_⟩
    simp only [ClauseSet.content, ClauseSet.push, Array.toList_push, happended, hnext]

theorem contents_advanced_congr (h : m.contents = n.contents) (nextLength r r' : Nat) :
    (m.advanced nextLength r).contents = (n.advanced nextLength r').contents := by
  obtain ⟨hpast, htail⟩ := contents_eq_iff.1 h
  have happended := congrArg Prod.fst htail
  refine contents_eq_iff.2 ⟨?_, rfl⟩
  simp only [advanced, Array.toList_push, List.map_append, List.map_cons, List.map_nil, hpast]
  exact congrArg (fun l => _ ++ [(l, some nextLength)]) happended

theorem contents_close_congr (h : m.contents = n.contents) (nextLength : Nat) :
    (m.close nextLength).contents = (n.close nextLength).contents := by
  have hclosed := isClosed_congr h
  cases hm : m.isClosed with
  | true => rw [close_of_closed hm, close_of_closed (hclosed ▸ hm), h]
  | false =>
    rw [close_of_open hm, close_of_open (hclosed ▸ hm)]
    obtain ⟨hpast, htail⟩ := contents_eq_iff.1 h
    have happended := congrArg Prod.fst htail
    exact contents_eq_iff.2 ⟨hpast, congrArg (fun l => (l, some nextLength)) happended⟩

end Mailbox

/-! ## Coordinators that are alike for one worker -/

namespace Coordinator

/-- Worker `i` has done the same to the mailboxes of `c` and of `d`. -/
structure Alike (i : Nat) (c d : Coordinator) : Prop where
  numWorkers_eq : d.numWorkers = c.numWorkers
  margin_eq : d.margin = c.margin
  periodLength_eq : d.periodLength = c.periodLength
  contents_eq : (d.box i).contents = (c.box i).contents
  next_eq : ∀ v, (d.box v).next i = (c.box v).next i

variable {i j : Nat} {c c' d d' : Coordinator}

namespace Alike

theorem refl (i : Nat) (c : Coordinator) : c.Alike i c := ⟨rfl, rfl, rfl, rfl, fun _ => rfl⟩

theorem symm (h : c.Alike i d) : d.Alike i c where
  numWorkers_eq := h.numWorkers_eq.symm
  margin_eq := h.margin_eq.symm
  periodLength_eq := h.periodLength_eq.symm
  contents_eq := h.contents_eq.symm
  next_eq v := (h.next_eq v).symm

theorem trans (h : c.Alike i d) (h' : d.Alike i d') : c.Alike i d' where
  numWorkers_eq := h'.numWorkers_eq.trans h.numWorkers_eq
  margin_eq := h'.margin_eq.trans h.margin_eq
  periodLength_eq := h'.periodLength_eq.trans h.periodLength_eq
  contents_eq := h'.contents_eq.trans h.contents_eq
  next_eq v := (h'.next_eq v).trans (h.next_eq v)

/-- The number of running workers and the winner do not matter. -/
theorem congr (h : c.Alike i d) (hc : c'.mailboxes = c.mailboxes) (hd : d'.mailboxes = d.mailboxes)
    (hcmargin : c'.margin = c.margin) (hdmargin : d'.margin = d.margin)
    (hclength : c'.periodLength = c.periodLength) (hdlength : d'.periodLength = d.periodLength) :
    c'.Alike i d' where
  numWorkers_eq := by
    rw [numWorkers, numWorkers, hc, hd]
    exact h.numWorkers_eq
  margin_eq := by rw [hcmargin, hdmargin, h.margin_eq]
  periodLength_eq := by rw [hclength, hdlength, h.periodLength_eq]
  contents_eq := by rw [box_congr hc, box_congr hd, h.contents_eq]
  next_eq v := by rw [box_congr hc, box_congr hd, h.next_eq]

/-- The worker does the same to its own mailbox in both. -/
theorem setBox (h : c.Alike i d) (hi : i < c.numWorkers) {m n : Mailbox}
    (hcontents : n.contents = m.contents) (hm : m.next i = (c.box i).next i)
    (hn : n.next i = (d.box i).next i) : (c.setBox i m).Alike i (d.setBox i n) where
  numWorkers_eq := by rw [numWorkers_setBox, numWorkers_setBox, h.numWorkers_eq]
  margin_eq := h.margin_eq
  periodLength_eq := h.periodLength_eq
  contents_eq := by
    rw [box_setBox_self hi, box_setBox_self (h.numWorkers_eq ▸ hi), hcontents]
  next_eq v := by
    rw [box_setBox hi, box_setBox (h.numWorkers_eq ▸ hi)]
    split
    · rw [hm, hn, h.next_eq]
    · exact h.next_eq v

/-- The worker acknowledges the same set in both. -/
theorem acknowledged (h : c.Alike i d) (hc : c.AllLogs) (hd : d.AllLogs) (hi : i < c.numWorkers)
    {v : Nat} (hv : v < c.numWorkers) (q : Nat) :
    (c.setBox v ((c.box v).acknowledged i q)).Alike i
      (d.setBox v ((d.box v).acknowledged i q)) := by
  have hv' : v < d.numWorkers := h.numWorkers_eq ▸ hv
  refine ⟨?_, h.margin_eq, h.periodLength_eq, ?_, fun u => ?_⟩
  · rw [numWorkers_setBox, numWorkers_setBox, h.numWorkers_eq]
  · rw [box_setBox hv, box_setBox hv']
    split
    · rename_i hiv
      subst hiv
      rw [Mailbox.contents_acknowledged, Mailbox.contents_acknowledged, h.contents_eq]
    · exact h.contents_eq
  · rw [box_setBox hv, box_setBox hv']
    split
    · rw [Mailbox.next_acknowledged _
          (by rw [(hd v hv').size_cursors, h.numWorkers_eq]; exact hi),
        Mailbox.next_acknowledged _ (by rw [(hc v hv).size_cursors]; exact hi), h.next_eq]
    · exact h.next_eq u

end Alike

/-- What another worker does makes no difference. -/
theorem Effect.alike (h : Effect j c c') (hj : j < c.numWorkers) (hc : c.AllLogs) (hij : i ≠ j) :
    c.Alike i c' where
  numWorkers_eq := h.numWorkers_eq
  margin_eq := h.margin_eq
  periodLength_eq := h.periodLength_eq
  contents_eq := h.contents_eq hj hij
  next_eq v := h.next_eq hj hc hij v

/-- The complete set behind frozen clauses. -/
theorem exists_of_frozen? {v q n : Nat} {cs : List Clause} (h : c.frozen? v q = some (cs, n)) :
    ∃ set, c.set? v q = some set ∧ set.clauses? = some cs ∧ set.nextLength? = some n ∧
      set.numClauses = cs.length := by
  obtain ⟨set, hset, hfrozen⟩ := Option.bind_eq_some_iff.1 h
  obtain ⟨k, hk, hkn⟩ := Option.map_eq_some_iff.1 hfrozen
  obtain ⟨rfl, rfl⟩ := Prod.mk.inj hkn
  refine ⟨set, hset, ?_, hk, Array.length_toList.symm⟩
  rw [ClauseSet.clauses?, ClauseSet.isCompleted, hk]
  rfl

end Coordinator

theorem Mailbox.nextLength?_congr {m n : Mailbox} (h : m.contents = n.contents) (q : Nat) :
    (m.set? q).bind (·.nextLength?) = (n.set? q).bind (·.nextLength?) := by
  have hq : (m.set? q).map (·.content) = (n.set? q).map (·.content) := by
    rw [← getElem?_contents, ← getElem?_contents, h]
  have hbind (m : Mailbox) :
      (m.set? q).bind (·.nextLength?) = ((m.set? q).map (·.content)).bind (·.2) := by
    rw [Option.bind_map]
    rfl
  rw [hbind, hbind, hq]

/-- What is counted of a set is its clauses, its candidate and its period. -/
theorem Tally.add_congr {a b : ClauseSet} (hnum : a.numClauses = b.numClauses)
    (hnext : a.nextLength? = b.nextLength?) (hperiod : a.period = b.period) (t : Tally)
    (target : Nat) : t.add a target = t.add b target := by
  rw [add, add, hnum, hnext, hperiod]

/-- What worker `w` is about to read of the others in a stage is the same in `c` and in `d`. -/
def Stage.Sees (c d : Coordinator) (w : Worker) : Stage → Prop
  | .fetching offset _ =>
    (c.box (w.neighbour offset)).next w.id ≤ (c.box (w.neighbour offset)).past.size ↔
      (d.box (w.neighbour offset)).next w.id ≤ (d.box (w.neighbour offset)).past.size
  | .reading offset _ q =>
    ∃ f, c.frozen? (w.neighbour offset) q = some f ∧ d.frozen? (w.neighbour offset) q = some f
  | .deciding => d.shouldTerminate w.period = c.shouldTerminate w.period
  | _ => True

/-- What worker `w` is about to read of the others is the same in `c` and in `d`. -/
def Control.Sees (c d : Coordinator) (w : Worker) : Control → Prop
  | .boundary b => b.stage.Sees c d w
  | _ => True

variable {σ : Type}

/-! ## The times that the stopwatches show -/

/-- The engine goes on alike, whichever of two measurements of the time its worker shows. -/
def Engine.Overlooks (E : Engine σ) (times times' : PhaseTimes) : Prop :=
  ∀ (e : σ) (w : Worker), E.resume e (.seen (w.view times')) = E.resume e (.seen (w.view times))

theorem Engine.Overlooks.refl (E : Engine σ) (times : PhaseTimes) : E.Overlooks times times :=
  fun _ _ => rfl

/-- Where a run stands, whatever the times in its statistics. -/
def Control.untimed : Control → Control
  | .finished statistics => .finished { statistics with times := {} }
  | k => k

namespace Runner

/-- A runner, whatever the times in its statistics. -/
def untimed (r : Runner σ) : Runner σ := { r with control := r.control.untimed }

/-- The times that the next step of a runner shows to its engine. -/
def sightings (E : Engine σ) (r : Runner σ) (s : Shared) : List PhaseTimes :=
  match r.control with
  | .searching =>
    match E.request r.engine with
    | .observe => [s.times r.worker.id]
    | _ => []
  | _ => []

variable {r r' : Runner σ}

theorem worker_eq_of_untimed (h : r'.untimed = r.untimed) : r'.worker = r.worker := by
  have hworker : r'.untimed.worker = r.untimed.worker := by rw [h]
  exact hworker

theorem isOver_eq_of_untimed (h : r'.untimed = r.untimed) : r'.isOver = r.isOver := by
  have huntimed (q : Runner σ) : q.untimed.isOver = q.isOver := by
    obtain ⟨p, control⟩ := q
    cases control <;> rfl
  rw [← huntimed, ← huntimed r, h]

/-- There are no statistics, and so no times, before the end of a run. -/
theorem eq_of_untimed (h : r'.untimed = r.untimed) (hgoing : r.isOver = false) : r' = r := by
  have hgoing' := (isOver_eq_of_untimed h).trans hgoing
  have huntimed {q : Runner σ} (hq : q.isOver = false) : q.untimed = q := by
    obtain ⟨p, control⟩ := q
    cases control <;> first | rfl | cases hq
  rw [← huntimed hgoing, ← huntimed hgoing', h]

/-- Only the view that an engine asks for depends on the times. -/
theorem serve_congr (E : Engine σ) (r : Runner σ) {times times' : PhaseTimes}
    (h : E.request r.engine = .observe → E.Overlooks times times') :
    r.serve E times' = r.serve E times := by
  unfold serve
  cases hreq : E.request r.engine with
  | observe =>
    dsimp only
    rw [reply, reply, h hreq]
  | _ => rfl

theorem untimed_handingIn (E : Engine σ) {s t : Shared} {verdict : Verdict}
    (hr : r.control = .handingIn verdict) : (r.step E t).1.untimed = (r.step E s).1.untimed := by
  unfold step finalStatistics
  rw [hr]
  dsimp only
  cases E.statistics r.engine with
  | error f => rfl
  | ok counters => cases E.exportThreshold r.engine <;> rfl

/-- An engine sees its times at most once in a step. -/
theorem sightings_eq_singleton {E : Engine σ} {s : Shared} {times : PhaseTimes}
    (h : times ∈ r.sightings E s) : r.sightings E s = [times] := by
  unfold sightings at h ⊢
  split at h
  · split at h
    · rw [List.mem_singleton.1 h]
    · cases h
  · cases h

/-- Whether an engine looks does not depend on what it sees. -/
theorem length_sightings_eq (E : Engine σ) (r : Runner σ) (s t : Shared) :
    (r.sightings E t).length = (r.sightings E s).length := by
  unfold sightings
  split
  · split <;> rfl
  · rfl

/-- A runner that cannot take a step shows its engine nothing. -/
theorem sightings_of_not_canStep (E : Engine σ) {s : Shared}
    (h : r.canStep s.coordinator = false) : r.sightings E s = [] := by
  unfold sightings
  split
  · rename_i hr
    rw [canStep, isOver, isWaiting, hr] at h
    cases h
  · rfl

end Runner

/-! ## Steps of a boundary -/

/-- Two outcomes of a boundary's step, with what they bring, are the same for worker `i` unless a
rule has been broken. -/
def Progression.Matches (i : Nat) (events events' : List Event) :
    Progression σ → Progression σ → Prop
  | .moved stage p s, .moved stage' p' s' =>
    stage' = stage ∧ p' = p ∧ events' = events ∧ s.coordinator.Alike i s'.coordinator
  | _, _ => True

/-- A runner whose worker has done the same in `s` and in `t`, and has no resource limits. -/
structure Runner.AlikeIn (r : Runner σ) (s t : Shared) : Prop where
  alike : s.coordinator.Alike r.worker.id t.coordinator
  id_lt : r.worker.id < s.coordinator.numWorkers
  numWorkers_eq : r.worker.numWorkers = s.coordinator.numWorkers
  logs : s.coordinator.AllLogs
  logs' : t.coordinator.AllLogs
  fits : r.control.Fits s.coordinator r.worker
  fits' : r.control.Fits t.coordinator r.worker
  time_eq : r.worker.config.limits.time = none
  memory_eq : r.worker.config.limits.memory = none

namespace Runner

theorem AlikeIn.id_lt' {r : Runner σ} {s t : Shared} (h : r.AlikeIn s t) :
    r.worker.id < t.coordinator.numWorkers := h.alike.numWorkers_eq ▸ h.id_lt

theorem AlikeIn.numWorkers_eq' {r : Runner σ} {s t : Shared} (h : r.AlikeIn s t) :
    r.worker.numWorkers = t.coordinator.numWorkers :=
  h.numWorkers_eq.trans h.alike.numWorkers_eq.symm

section Boundary

variable {E : Engine σ} {r : Runner σ} {s t : Shared} {b : Boundary}

theorem matches_exporting (h : r.AlikeIn s t) (d : Drain) :
    Progression.Matches r.worker.id [] [] (b.stepExporting E d r.toPost s)
      (b.stepExporting E d r.toPost t) := by
  unfold Boundary.stepExporting
  dsimp only
  rcases r.worker.outbox.pick r.worker.config.exportBudget d.literals with
    outbox | outbox | ⟨clause, outbox⟩
  · -- nothing is left to decide about
    dsimp only
    rcases Post.regulate E { r.toPost with worker := { r.worker with outbox } }
      b.counters.conflicts d with ⟨f | ⟨⟩, p⟩
    · trivial
    · exact ⟨rfl, rfl, rfl, h.alike⟩
  · exact ⟨rfl, rfl, rfl, h.alike⟩
  · dsimp only
    rcases hs : s.coordinator.append r.worker.id clause with ⟨f | ⟨⟩, c⟩
    · trivial
    rcases ht : t.coordinator.append r.worker.id clause with ⟨f | ⟨⟩, c'⟩
    · trivial
    obtain ⟨hid, -, rfl⟩ := Coordinator.onMailbox_eq_ok hs
    obtain ⟨-, -, rfl⟩ := Coordinator.onMailbox_eq_ok ht
    exact ⟨rfl, rfl, rfl, h.alike.setBox hid
      (Mailbox.contents_append_congr h.alike.contents_eq clause) (Mailbox.next_append _ _ _)
      (Mailbox.next_append _ _ _)⟩

theorem matches_advancing (h : r.AlikeIn s t) :
    Progression.Matches r.worker.id [] [] (b.stepAdvancing r.toPost s)
      (b.stepAdvancing r.toPost t) := by
  unfold Boundary.stepAdvancing
  dsimp only
  rcases r.worker.pace.update r.worker.periodLength b.counters.conflicts with ⟨f | n, pace⟩
  · trivial
  dsimp only
  rcases hs : s.coordinator.advance r.worker.id n with ⟨f | q, c⟩
  · trivial
  rcases ht : t.coordinator.advance r.worker.id n with ⟨f | q', c'⟩
  · trivial
  obtain ⟨hid, hq, rfl⟩ := Coordinator.onMailbox_eq_ok hs
  obtain ⟨-, hq', rfl⟩ := Coordinator.onMailbox_eq_ok ht
  obtain ⟨released, hm⟩ := Mailbox.eq_advanced_of_ok hq
  obtain ⟨released', hm'⟩ := Mailbox.eq_advanced_of_ok hq'
  rw [hm, hm']
  refine ⟨?_, rfl, rfl, h.alike.setBox hid
    (Mailbox.contents_advanced_congr h.alike.contents_eq n released' released) rfl rfl⟩
  show (if _ < t.coordinator.margin then _ else _) = if _ < s.coordinator.margin then _ else _
  rw [h.alike.margin_eq]

theorem matches_fetching (h : r.AlikeIn s t) {offset : Nat} {y : Tally} (hpos : 1 ≤ offset)
    (hsees : (Stage.fetching offset y).Sees s.coordinator t.coordinator r.worker) :
    Progression.Matches r.worker.id [] [] (Boundary.stepFetching offset y r.toPost s)
      (Boundary.stepFetching offset y r.toPost t) := by
  unfold Boundary.stepFetching
  dsimp only
  split
  · rename_i hlt
    have hv : r.worker.neighbour offset < s.coordinator.numWorkers := by
      rw [← h.numWorkers_eq]
      exact r.worker.neighbour_lt (by omega) offset
    have hv' : r.worker.neighbour offset < t.coordinator.numWorkers := h.alike.numWorkers_eq ▸ hv
    rw [fetch_eq h.id_lt h.logs h.numWorkers_eq hpos hlt,
      fetch_eq h.id_lt' h.logs' h.numWorkers_eq' hpos hlt, h.alike.margin_eq, h.alike.next_eq]
    rw [Stage.Sees, h.alike.next_eq, ← Mailbox.set?_isSome_iff, ← Mailbox.set?_isSome_iff] at hsees
    by_cases hnewer : r.worker.importPeriod s.coordinator.margin <
        (s.coordinator.box (r.worker.neighbour offset)).next r.worker.id
    · rw [if_pos hnewer, if_pos hnewer]
      exact ⟨rfl, rfl, rfl, h.alike⟩
    · -- the producer has come as far as the next set in both, or in neither
      rw [if_neg hnewer, if_neg hnewer]
      cases hset : (s.coordinator.box (r.worker.neighbour offset)).set?
          ((s.coordinator.box (r.worker.neighbour offset)).next r.worker.id) with
      | none =>
        have hset' : (t.coordinator.box (r.worker.neighbour offset)).set?
            ((s.coordinator.box (r.worker.neighbour offset)).next r.worker.id) = none := by
          rw [← Option.not_isSome_iff_eq_none, ← hsees, hset]
          simp
        rw [hset']
        exact ⟨rfl, rfl, rfl, h.alike⟩
      | some set =>
        rw [hset] at hsees
        obtain ⟨set', hset'⟩ := Option.isSome_iff_exists.1 (hsees.1 rfl)
        rw [hset']
        have hperiod := ((h.logs _ hv).set?_spec hset).2
        have hperiod' := ((h.logs' _ hv').set?_spec hset').2
        exact ⟨by rw [hperiod, hperiod'], rfl, rfl, h.alike⟩
  · exact ⟨rfl, rfl, rfl, h.alike⟩

theorem matches_reading (h : r.AlikeIn s t) {offset q : Nat} {y : Tally}
    (hlt : r.worker.neighbour offset < r.worker.numWorkers)
    (hb : b.stage = .reading offset y q)
    (hsees : (Stage.reading offset y q).Sees s.coordinator t.coordinator r.worker) :
    Progression.Matches r.worker.id (b.events r.worker s.coordinator)
      (b.events r.worker t.coordinator) (Boundary.stepReading offset y q r.toPost s)
      (Boundary.stepReading offset y q r.toPost t) := by
  obtain ⟨⟨cs, n⟩, hf, hf'⟩ := hsees
  obtain ⟨set, hset, hcs, hnext, hnum⟩ := Coordinator.exists_of_frozen? hf
  obtain ⟨set', hset', hcs', hnext', hnum'⟩ := Coordinator.exists_of_frozen? hf'
  have hv : r.worker.neighbour offset < s.coordinator.numWorkers := h.numWorkers_eq ▸ hlt
  have hv' : r.worker.neighbour offset < t.coordinator.numWorkers := h.alike.numWorkers_eq ▸ hv
  have hperiod := ((h.logs _ hv).set?_spec ((Coordinator.set?_eq hv q).symm.trans hset)).2
  have hperiod' := ((h.logs' _ hv').set?_spec ((Coordinator.set?_eq hv' q).symm.trans hset')).2
  unfold Boundary.events Boundary.stepReading
  rw [hb]
  dsimp only
  rw [hset, hset', Option.bind_some, Option.bind_some, hcs, hcs']
  dsimp only
  rw [hcs, hcs']
  dsimp only
  rw [h.alike.margin_eq, Tally.add_congr (hnum'.trans hnum.symm) (hnext'.trans hnext.symm)
    (hperiod'.trans hperiod.symm)]
  generalize { r.worker with pending := r.worker.pending.append cs } = w
  cases y.add set (w.importPeriod s.coordinator.margin) with
  | error f => trivial
  | ok y => exact ⟨rfl, rfl, rfl, h.alike⟩

theorem matches_acknowledging (h : r.AlikeIn s t) {offset q : Nat} {y : Tally}
    (hb : b.stage = .acknowledging offset y q)
    (hfits : (Stage.acknowledging offset y q).Fits s.coordinator r.worker)
    (hfits' : (Stage.acknowledging offset y q).Fits t.coordinator r.worker) :
    Progression.Matches r.worker.id (b.events r.worker s.coordinator)
      (b.events r.worker t.coordinator) (Boundary.stepAcknowledging offset y q r.toPost s)
      (Boundary.stepAcknowledging offset y q r.toPost t) := by
  obtain ⟨-, -, hholds, hfrozen⟩ := hfits
  obtain ⟨-, -, hholds', hfrozen'⟩ := hfits'
  have hv : r.worker.neighbour offset < s.coordinator.numWorkers :=
    h.numWorkers_eq ▸ hholds.neighbour_lt
  have hv' : r.worker.neighbour offset < t.coordinator.numWorkers := h.alike.numWorkers_eq ▸ hv
  have heq := acknowledge_eq h.id_lt h.logs h.numWorkers_eq hholds
  have heq' := acknowledge_eq h.id_lt' h.logs' h.numWorkers_eq' hholds'
  rw [← Coordinator.frozen?_eq hv, ← Coordinator.any_isCompleted] at hfrozen
  rw [← Coordinator.frozen?_eq hv', ← Coordinator.any_isCompleted] at hfrozen'
  unfold Boundary.events Boundary.stepAcknowledging
  rw [hb]
  dsimp only
  rw [hfrozen, hfrozen']
  rcases hack : s.coordinator.acknowledge (r.worker.neighbour offset) r.worker.id q with
    ⟨f | ⟨⟩, c⟩
  · trivial
  rcases hack' : t.coordinator.acknowledge (r.worker.neighbour offset) r.worker.id q with
    ⟨f | ⟨⟩, c'⟩
  · trivial
  rw [hack] at heq
  rw [hack'] at heq'
  rcases heq with ⟨-, f, hf⟩ | ⟨rfl, -⟩
  · cases hf
  rcases heq' with ⟨-, f, hf⟩ | ⟨rfl, -⟩
  · cases hf
  exact ⟨rfl, rfl, rfl, h.alike.acknowledged h.logs h.logs' h.id_lt hv q⟩

theorem matches_averaging (h : r.AlikeIn s t) {y : Tally}
    (hmargin : s.coordinator.margin ≤ r.worker.period)
    (hpast : (s.coordinator.box r.worker.id).past.size = r.worker.period + 1) :
    Progression.Matches r.worker.id [] [] (Boundary.stepAveraging y r.toPost s)
      (Boundary.stepAveraging y r.toPost t) := by
  have hpast' := (Mailbox.size_past_congr h.alike.contents_eq).trans hpast
  -- the worker's own candidate is still in its window
  have hown : ((t.coordinator.box r.worker.id).lookup
        (r.worker.importPeriod s.coordinator.margin)).bind (·.nextLength?) =
      ((s.coordinator.box r.worker.id).lookup
        (r.worker.importPeriod s.coordinator.margin)).bind (·.nextLength?) := by
    unfold Worker.importPeriod
    rw [(h.logs _ h.id_lt).lookup_own (by omega),
      (h.logs' _ h.id_lt').lookup_own (by rw [h.alike.margin_eq]; omega)]
    exact Mailbox.nextLength?_congr h.alike.contents_eq _
  have hsame : (r.worker.countImports y).id = r.worker.id ∧
    (r.worker.countImports y).importPeriod s.coordinator.margin =
      r.worker.importPeriod s.coordinator.margin := ⟨rfl, rfl⟩
  unfold Boundary.stepAveraging
  generalize r.worker.countImports y = w at hsame ⊢
  dsimp only
  split
  · rw [hsame.1, h.alike.margin_eq, hsame.2, Coordinator.mailbox_eq h.id_lt,
      Coordinator.mailbox_eq h.id_lt']
    dsimp only
    rw [hown]
    cases Word.add y.lengthSum (Option.getD _ 0) with
    | error f => trivial
    | ok sum => exact ⟨rfl, rfl, rfl, h.alike⟩
  · exact ⟨rfl, rfl, rfl, h.alike⟩

theorem matches_entering (h : r.AlikeIn s t) {length : Nat} (hb : b.stage = .entering length) :
    Progression.Matches r.worker.id (b.events r.worker s.coordinator)
      (b.events r.worker t.coordinator) (b.stepEntering length r.toPost s)
      (b.stepEntering length r.toPost t) := by
  unfold Boundary.events Boundary.stepEntering
  rw [hb]
  dsimp only
  cases r.worker.enter length with
  | error f => trivial
  | ok w => exact ⟨rfl, rfl, rfl, h.alike⟩

theorem matches_deciding (h : r.AlikeIn s t)
    (hsees : Stage.deciding.Sees s.coordinator t.coordinator r.worker) :
    Progression.Matches r.worker.id [] [] (Boundary.stepDeciding r.toPost s)
      (Boundary.stepDeciding r.toPost t) := by
  have hstop : t.coordinator.shouldTerminate r.worker.period =
    s.coordinator.shouldTerminate r.worker.period := hsees
  unfold Boundary.stepDeciding
  dsimp only
  rw [Limits.check_of_unlimited _ _ h.time_eq h.memory_eq,
    Limits.check_of_unlimited _ _ h.time_eq h.memory_eq, hstop]
  cases s.coordinator.shouldTerminate r.worker.period <;> exact ⟨rfl, rfl, rfl, h.alike⟩

theorem matches_boundary (h : r.AlikeIn s t) (hr : r.control = .boundary b)
    (hsees : b.stage.Sees s.coordinator t.coordinator r.worker) :
    Progression.Matches r.worker.id (b.events r.worker s.coordinator)
      (b.events r.worker t.coordinator) (b.step E r.toPost s) (b.step E r.toPost t) := by
  have hnone (hstage : ∀ u : Coordinator, b.events r.worker u = []) {p p' : Progression σ}
      (hmatches : Progression.Matches r.worker.id [] [] p p') :
      Progression.Matches r.worker.id (b.events r.worker s.coordinator)
        (b.events r.worker t.coordinator) p p' := by
    rw [hstage, hstage]
    exact hmatches
  unfold Boundary.step
  cases hb : b.stage with
  | exporting d => exact hnone (fun u => by rw [Boundary.events, hb]) (matches_exporting h d)
  | advancing => exact hnone (fun u => by rw [Boundary.events, hb]) (matches_advancing h)
  | fetching offset y =>
    obtain ⟨-, -, -, -, hpos⟩ := fits_boundary h.fits hr hb
    exact hnone (fun u => by rw [Boundary.events, hb])
      (matches_fetching h hpos (hb ▸ hsees))
  | reading offset y q =>
    obtain ⟨-, -, -, -, hholds⟩ := fits_boundary h.fits hr hb
    exact matches_reading h hholds.neighbour_lt hb (hb ▸ hsees)
  | acknowledging offset y q =>
    exact matches_acknowledging h hb (fits_boundary h.fits hr hb).2.2
      (fits_boundary h.fits' hr hb).2.2
  | averaging y =>
    obtain ⟨-, hpast, -, hmargin⟩ := fits_boundary h.fits hr hb
    exact hnone (fun u => by rw [Boundary.events, hb])
      (matches_averaging h hmargin hpast)
  | entering length => exact matches_entering h hb
  | deciding =>
    exact hnone (fun u => by rw [Boundary.events, hb])
      (matches_deciding h (hb ▸ hsees))
  | answered goOn => exact hnone (fun u => by rw [Boundary.events, hb]) ⟨rfl, rfl, rfl, h.alike⟩

theorem step_congr_boundary (h : r.AlikeIn s t) (hr : r.control = .boundary b)
    (hsees : b.stage.Sees s.coordinator t.coordinator r.worker)
    (hgood : (r.step E s).1.control.isBroken = false)
    (hgood' : (r.step E t).1.control.isBroken = false) :
    (r.step E t).1 = (r.step E s).1 ∧ r.events E t = r.events E s ∧
      (r.step E s).2.coordinator.Alike r.worker.id (r.step E t).2.coordinator := by
  by_cases hanswered : ∃ goOn, b.stage = .answered goOn
  · obtain ⟨goOn, hb⟩ := hanswered
    rw [step_answered E s hr hb, step_answered E t hr hb, events_answered E s hr hb,
      events_answered E t hr hb]
    exact ⟨rfl, rfl, h.alike⟩
  · have hb (goOn : Bool) : b.stage ≠ .answered goOn := fun hb => hanswered ⟨goOn, hb⟩
    have hmatches := matches_boundary (E := E) h hr hsees
    rw [step_boundary E s hr hb] at hgood ⊢
    rw [step_boundary E t hr hb] at hgood' ⊢
    rw [events_boundary E s hr, events_boundary E t hr]
    generalize b.step E r.toPost s = progression at hmatches hgood ⊢
    generalize b.step E r.toPost t = progression' at hmatches hgood' ⊢
    cases progression with
    | failed f p s => cases hgood
    | moved stage p s =>
      cases progression' with
      | failed f p t => cases hgood'
      | moved stage p t =>
        obtain ⟨rfl, rfl, hev, halike⟩ := hmatches
        exact ⟨rfl, hev, halike⟩

end Boundary

/-- A worker that has done the same, and is about to read the same, takes the same step, unless that
breaks a rule. -/
theorem AlikeIn.step_congr (E : Engine σ) {r : Runner σ} {s t : Shared} (h : r.AlikeIn s t)
    (hsees : r.control.Sees s.coordinator t.coordinator r.worker)
    (htimes : ∀ times ∈ r.sightings E s, ∀ times' ∈ r.sightings E t, E.Overlooks times times')
    (hgood : (r.step E s).1.control.isBroken = false)
    (hgood' : (r.step E t).1.control.isBroken = false) :
    (r.step E t).1.untimed = (r.step E s).1.untimed ∧ r.events E t = r.events E s ∧
      (r.step E s).2.coordinator.Alike r.worker.id (r.step E t).2.coordinator := by
  have hevents (hsearching : r.control ≠ .searching) (hboundary : ∀ b, r.control ≠ .boundary b) :
      r.events E t = r.events E s := by
    rw [events_eq_nil hsearching hboundary, events_eq_nil hsearching hboundary]
  cases hr : r.control with
  | boundary b =>
    rw [hr] at hsees
    obtain ⟨hstep, hrest⟩ := step_congr_boundary h hr hsees hgood hgood'
    exact ⟨congrArg untimed hstep, hrest⟩
  | searching =>
    have hserve : r.serve E (t.times r.worker.id) = r.serve E (s.times r.worker.id) := by
      refine serve_congr E r fun hreq => htimes _ ?_ _ ?_ <;>
        rw [sightings, hr, hreq, List.mem_singleton]
    rw [step_searching E s hr, step_searching E t hr, hserve, events, events, hr]
    exact ⟨rfl, rfl, h.alike⟩
  | ready =>
    rw [hevents (by simp [hr]) (by simp [hr])]
    unfold step Coordinator.start at hgood hgood' ⊢
    rw [hr] at hgood hgood' ⊢
    dsimp only at hgood hgood' ⊢
    cases hlive : Word.add s.coordinator.live 1 with
    | error f =>
      rw [hlive] at hgood
      cases hgood
    | ok n =>
      cases hlive' : Word.add t.coordinator.live 1 with
      | error f =>
        rw [hlive'] at hgood'
        cases hgood'
      | ok n' => exact ⟨rfl, rfl, h.alike.congr rfl rfl rfl rfl rfl rfl⟩
  | reporting verdict =>
    rw [hevents (by simp [hr]) (by simp [hr])]
    unfold step Coordinator.report at hgood hgood' ⊢
    rw [hr] at hgood hgood' ⊢
    dsimp only at hgood hgood' ⊢
    cases hbest : Report.displaces ⟨verdict, ⟨r.worker.period, r.worker.id⟩⟩
        s.coordinator.winner? with
    | error f =>
      rw [hbest] at hgood
      cases hgood
    | ok best =>
      cases hbest' : Report.displaces ⟨verdict, ⟨r.worker.period, r.worker.id⟩⟩
          t.coordinator.winner? with
      | error f =>
        rw [hbest'] at hgood'
        cases hgood'
      | ok best' =>
        cases best <;> cases best' <;> exact ⟨rfl, rfl, h.alike.congr rfl rfl rfl rfl rfl rfl⟩
  | closing verdict =>
    rw [hevents (by simp [hr]) (by simp [hr])]
    unfold step
    rw [hr]
    dsimp only
    rw [Coordinator.close_eq h.id_lt, Coordinator.close_eq h.id_lt']
    exact ⟨rfl, rfl, h.alike.setBox h.id_lt (Mailbox.contents_close_congr h.alike.contents_eq _)
      (Mailbox.next_close _ _ _) (Mailbox.next_close _ _ _)⟩
  | leaving ending =>
    rw [hevents (by simp [hr]) (by simp [hr])]
    unfold step
    rw [hr]
    dsimp only
    rw [Coordinator.close_eq h.id_lt, Coordinator.close_eq h.id_lt', h.alike.periodLength_eq]
    exact ⟨rfl, rfl, h.alike.setBox h.id_lt (Mailbox.contents_close_congr h.alike.contents_eq _)
      (Mailbox.next_close _ _ _) (Mailbox.next_close _ _ _)⟩
  | signingOff ending =>
    rw [hevents (by simp [hr]) (by simp [hr])]
    unfold step Coordinator.stop at hgood hgood' ⊢
    rw [hr] at hgood hgood' ⊢
    dsimp only at hgood hgood' ⊢
    by_cases hlive : s.coordinator.live = 0
    · rw [if_pos hlive] at hgood
      cases hgood
    · by_cases hlive' : t.coordinator.live = 0
      · rw [if_pos hlive'] at hgood'
        cases hgood'
      · rw [if_neg hlive, if_neg hlive']
        exact ⟨rfl, rfl, h.alike.congr rfl rfl rfl rfl rfl rfl⟩
  | handingIn verdict =>
    refine ⟨untimed_handingIn E hr, hevents (by simp [hr]) (by simp [hr]), ?_⟩
    unfold step
    rw [hr]
    dsimp only
    cases r.finalStatistics E verdict (s.times r.worker.id) <;>
      cases r.finalStatistics E verdict (t.times r.worker.id) <;> exact h.alike
  | finished statistics =>
    have hstep (u : Shared) : r.step E u = (r, u) := by rw [step, hr]
    rw [hevents (by simp [hr]) (by simp [hr]), hstep, hstep]
    exact ⟨rfl, rfl, h.alike⟩
  | panicked f =>
    have hstep (u : Shared) : r.step E u = (r, u) := by rw [step, hr]
    rw [hevents (by simp [hr]) (by simp [hr]), hstep, hstep]
    exact ⟨rfl, rfl, h.alike⟩

end Runner

/-- A runner that waits, or whose run is over, stays as it is. -/
theorem Runner.step_of_not_canStep (E : Engine σ) {r : Runner σ} {s : Shared}
    (h : r.canStep s.coordinator = false) : r.step E s = (r, s) ∧ r.events E s = [] := by
  unfold canStep isOver isWaiting at h
  cases hr : r.control with
  | boundary b =>
    rw [hr] at h
    unfold Boundary.isWaiting at h
    dsimp only at h
    cases hb : b.stage with
    | reading offset t q =>
      simp only [hb, Control.isOver, Bool.not_false, Bool.true_and, Bool.not_eq_false',
        Bool.and_eq_true, Bool.not_eq_true'] at h
      obtain ⟨hmode, hopen⟩ := h
      have hstays : b.step E r.toPost s = .moved (.reading offset t q) r.toPost s ∧
          b.events r.worker s.coordinator = [] := by
        unfold Boundary.step Boundary.stepReading Boundary.events
        rw [hb]
        dsimp only
        cases hset : s.coordinator.set? (r.worker.neighbour offset) q with
        | none => exact ⟨rfl, rfl⟩
        | some set =>
          rw [hset, Option.any_some] at hopen
          have hcs : set.clauses? = none := by
            rw [ClauseSet.clauses?, hopen, if_neg Bool.false_ne_true]
          dsimp only
          rw [Option.bind_some, hcs, hmode]
          exact ⟨rfl, rfl⟩
      rw [step_boundary E s hr (by simp [hb]), events_boundary E s hr, hstays.1]
      refine ⟨Prod.ext ?_ rfl, hstays.2⟩
      show (⟨r.toPost, .boundary ⟨b.counters, .reading offset t q⟩⟩ : Runner σ) = r
      rw [← hb, ← hr]
    | _ => simp [hb, Control.isOver] at h
  | finished statistics =>
    exact ⟨by rw [step, hr], events_eq_nil (by simp [hr]) (by simp [hr])⟩
  | panicked f => exact ⟨by rw [step, hr], events_eq_nil (by simp [hr]) (by simp [hr])⟩
  | _ => simp [hr, Control.isOver] at h

/-! ## Whole exchanges -/

namespace Exchange

variable {config : Config} {E : Engine σ} {x y z : Exchange σ} {i j : Nat}

/-- Worker `i` stands in `y` as it does in `x`, but for the times in its statistics. -/
structure Alike (i : Nat) (x y : Exchange σ) : Prop where
  runner_eq : y.runners[i]?.map Runner.untimed = x.runners[i]?.map Runner.untimed
  coordinator : x.shared.coordinator.Alike i y.shared.coordinator

theorem Alike.refl (i : Nat) (x : Exchange σ) : x.Alike i x := ⟨rfl, .refl i _⟩

theorem Alike.symm (h : x.Alike i y) : y.Alike i x := ⟨h.runner_eq.symm, h.coordinator.symm⟩

theorem Alike.trans (h : x.Alike i y) (h' : y.Alike i z) : x.Alike i z :=
  ⟨h'.runner_eq.trans h.runner_eq, h.coordinator.trans h'.coordinator⟩

theorem Alike.exists_runner (h : x.Alike i y) {r : Runner σ} (hr : x.runners[i]? = some r) :
    ∃ r', y.runners[i]? = some r' ∧ r'.untimed = r.untimed := by
  have hrunner := h.runner_eq
  rw [hr, Option.map_some] at hrunner
  exact Option.map_eq_some_iff.1 hrunner

/-- Before the end of its run a worker is the same. -/
theorem Alike.runner (h : x.Alike i y) {r : Runner σ} (hr : x.runners[i]? = some r)
    (hgoing : r.isOver = false) : y.runners[i]? = some r := by
  obtain ⟨r', hr', huntimed⟩ := h.exists_runner hr
  rwa [← Runner.eq_of_untimed huntimed hgoing]

/-- The turns of the others make no difference for a worker. -/
theorem Standing.alike_turn (h : x.Standing config) (E : Engine σ) (hij : i ≠ j) :
    x.Alike i (x.turn E j) := by
  rcases h.turn_cases E j with ⟨heq, -⟩ | ⟨r, r', hr, -, heff, hrunners⟩
  · rw [heq]
    exact .refl i x
  · exact ⟨by rw [hrunners, if_neg hij],
      heff.alike (h.lt_mailboxes (h.lt_numWorkers hr)) h.logs hij⟩

/-- What worker `w` is shown of its times along a schedule. -/
def sightings (E : Engine σ) (x : Exchange σ) (schedule : List Nat) (w : Nat) : List PhaseTimes :=
  x.record E (Runner.sightings E) schedule w

theorem sightings_append (E : Engine σ) (x : Exchange σ) (s t : List Nat) (w : Nat) :
    x.sightings E (s ++ t) w = x.sightings E s w ++ (x.follow E s).sightings E t w :=
  record_append E _ x s t w

theorem sightings_concat (E : Engine σ) (t : List Nat) {r : Runner σ}
    (hr : (x.follow E t).runners[i]? = some r) : x.sightings E (t ++ [i]) i =
      x.sightings E t i ++ r.sightings E (x.follow E t).shared := by
  rw [sightings, record_concat, if_pos rfl, hr]
  rfl

theorem sightings_concat_of_ne (E : Engine σ) (t : List Nat) (hij : i ≠ j) :
    x.sightings E (t ++ [i]) j = x.sightings E t j := by
  rw [sightings, record_concat, if_neg hij, List.append_nil, sightings]

/-- A worker that cannot take a step lets its turn pass; only its stopwatch goes on. -/
theorem turn_of_not_canStep (E : Engine σ) {r : Runner σ} (hr : x.runners[i]? = some r)
    (hcan : r.canStep x.shared.coordinator = false) :
    (x.turn E i).runners = x.runners ∧ (x.turn E i).shared.coordinator = x.shared.coordinator ∧
      (x.turn E i).shared.channel = x.shared.channel ∧ x.events E i = [] := by
  obtain ⟨hstep, hevents⟩ := r.step_of_not_canStep E hcan
  obtain ⟨hi, rfl⟩ := Array.getElem?_eq_some_iff.1 hr
  rw [turn_of_some E hr, events_of_some E hr, Runner.coordinator_turn, Runner.channel_turn, hstep]
  exact ⟨by simp [Array.setIfInBounds, hi], rfl, rfl, hevents⟩

/-- A turn that passes makes no difference. -/
theorem alike_of_not_canStep (E : Engine σ) {r : Runner σ} (hr : x.runners[i]? = some r)
    (hcan : r.canStep x.shared.coordinator = false) : x.Alike i (x.turn E i) := by
  obtain ⟨hrunners, hcoordinator, -, -⟩ := turn_of_not_canStep E hr hcan
  refine ⟨by rw [hrunners], ?_⟩
  rw [hcoordinator]
  exact .refl i _

/-- A worker that has left stays as it is. -/
theorem Standing.alike_of_isOver (h : x.Standing config) (E : Engine σ) {r : Runner σ}
    (hr : x.runners[i]? = some r) (hover : r.isOver = true) (t : List Nat) :
    x.Alike i (x.follow E t) ∧ x.journal E t i = [] := by
  induction t generalizing x r with
  | nil => exact ⟨.refl i x, rfl⟩
  | cons j t ih =>
    have hfirst : x.Alike i (x.turn E j) ∧ (if j = i then x.events E i else []) = [] := by
      by_cases hij : i = j
      · subst hij
        have hcan : r.canStep x.shared.coordinator = false := by rw [Runner.canStep, hover]; rfl
        rw [if_pos rfl]
        exact ⟨alike_of_not_canStep E hr hcan, (turn_of_not_canStep E hr hcan).2.2.2⟩
      · exact ⟨h.alike_turn E hij, if_neg (Ne.symm hij)⟩
    obtain ⟨halike, hevents⟩ := hfirst
    obtain ⟨r', hr', huntimed⟩ := halike.exists_runner hr
    obtain ⟨hrest, hjournal⟩ :=
      ih (h.turn E j) hr' ((Runner.isOver_eq_of_untimed huntimed).trans hover)
    refine ⟨halike.trans hrest, ?_⟩
    rw [journal, hevents, hjournal]
    rfl

/-- A worker that leaves in the course of a schedule takes a step there, and until then nothing
changes for it. -/
theorem Standing.exists_step (h : x.Standing config) (E : Engine σ) {r : Runner σ}
    (hr : x.runners[i]? = some r) (hgoing : r.isOver = false) {t : List Nat}
    (hover : ∀ r', (x.follow E t).runners[i]? = some r' → r'.isOver = true) :
    ∃ t₁ t₂, t = t₁ ++ i :: t₂ ∧ x.Alike i (x.follow E t₁) ∧ x.journal E t₁ i = [] ∧
      x.sightings E t₁ i = [] ∧ r.canStep (x.follow E t₁).shared.coordinator = true := by
  induction t generalizing x with
  | nil =>
    rw [hover r hr] at hgoing
    cases hgoing
  | cons j t ih =>
    -- a turn that is not such a step is put in front of what the rest of the schedule has
    have hlater (halike : x.Alike i (x.turn E j))
        (hpass : j = i → x.events E i = [] ∧ r.sightings E x.shared = []) :
        ∃ t₁ t₂, j :: t = t₁ ++ i :: t₂ ∧ x.Alike i (x.follow E t₁) ∧ x.journal E t₁ i = [] ∧
          x.sightings E t₁ i = [] ∧ r.canStep (x.follow E t₁).shared.coordinator = true := by
      obtain ⟨t₁, t₂, rfl, hrest, hjournal, hsightings, hcan⟩ :=
        ih (h.turn E j) (halike.runner hr hgoing) hover
      refine ⟨j :: t₁, t₂, rfl, halike.trans hrest, ?_, ?_, hcan⟩
      · rw [journal, hjournal, List.append_nil, ite_eq_right_iff]
        exact fun hji => (hpass hji).1
      · rw [sightings] at hsightings ⊢
        rw [record, hsightings, List.append_nil, ite_eq_right_iff, hr]
        exact fun hji => (hpass hji).2
    by_cases hij : i = j
    · subst hij
      cases hcan : r.canStep x.shared.coordinator with
      | true => exact ⟨[], t, rfl, .refl i x, rfl, rfl, hcan⟩
      | false =>
        exact hlater (alike_of_not_canStep E hr hcan) fun _ =>
          ⟨(turn_of_not_canStep E hr hcan).2.2.2, Runner.sightings_of_not_canStep E hcan⟩
    · exact hlater (h.alike_turn E hij) fun hji => absurd hji.symm hij

/-- A worker that stands the same, and is about to read the same, does the same in its turn, unless
that breaks a rule. -/
theorem Alike.turn (h : x.Alike i y) (hx : x.Standing config) (hy : y.Standing config)
    (htime : config.limits.time = none) (hmemory : config.limits.memory = none) {r : Runner σ}
    (hr : x.runners[i]? = some r) (hr' : y.runners[i]? = some r)
    (hsees : r.control.Sees x.shared.coordinator y.shared.coordinator r.worker)
    (htimes : ∀ times ∈ r.sightings E x.shared, ∀ times' ∈ r.sightings E y.shared,
      E.Overlooks times times')
    (hgood : ∀ r', (x.turn E i).runners[i]? = some r' → r'.control.isBroken = false)
    (hgood' : ∀ r', (y.turn E i).runners[i]? = some r' → r'.control.isBroken = false) :
    (x.turn E i).Alike i (y.turn E i) ∧ y.events E i = x.events E i := by
  have hi := hx.lt_mailboxes (hx.lt_numWorkers hr)
  obtain ⟨hid, -, hconfig, -, hfits⟩ := hx.runner i r hr
  obtain ⟨-, -, -, -, hfits'⟩ := hy.runner i r hr'
  subst hid
  have halike : r.AlikeIn x.shared y.shared :=
    ⟨h.coordinator, hi, hx.worker_numWorkers_eq hr, hx.logs, hy.logs, hfits, hfits',
      by rw [hconfig]; exact htime, by rw [hconfig]; exact hmemory⟩
  obtain ⟨hstep, hevents, hcoordinator⟩ := halike.step_congr E hsees htimes
    (hgood _ (by rw [runners_turn E hr, if_pos rfl]))
    (hgood' _ (by rw [runners_turn E hr', if_pos rfl]))
  refine ⟨⟨?_, ?_⟩, ?_⟩
  · rw [runners_turn E hr, runners_turn E hr', if_pos rfl, if_pos rfl, Option.map_some,
      Option.map_some, hstep]
  · rw [turn_of_some E hr, turn_of_some E hr']
    exact hcoordinator
  · rw [events_of_some E hr, events_of_some E hr', hevents]

end Exchange

end ClauseExchange
