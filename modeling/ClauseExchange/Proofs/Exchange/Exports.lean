import ClauseExchange.Engine.Scripted
import ClauseExchange.Proofs.Exchange.Record
import ClauseExchange.Proofs.Outbox.Shipment

/-!
# No clause is lost on its way out

A clause that an engine offers is staged, and departs at the end of some period: into the worker's
own set of that period or, if it exceeds the budget, into nowhere. `Runner.shipment` is what there is
to be seen of this, and `Runner.ships` says that every step of a runner is a move of its shipment,
or breaks a rule within a boundary.

`Exchange.Assembled.exports_conserved` says, for every schedule, what has become of the clauses that
a worker's engine has offered.
-/

namespace ClauseExchange

/-- How far a worker in a stage of a boundary has come with its exports. -/
def Stage.loading : Stage → Loading
  | .exporting d => .draining d
  | .advancing => .loaded
  | .fetching .. | .reading .. | .acknowledging .. | .averaging _ | .entering _ => .shipped
  | .deciding | .answered _ => .idle

/-- How far a worker has come with its exports. -/
def Control.loading : Control → Loading
  | .boundary b => b.stage.loading
  | _ => .idle

/-- What does not change about a worker unless it stages or exports clauses or enters a period. -/
structure Worker.SameExports (w w' : Worker) : Prop where
  id_eq : w'.id = w.id
  outbox_eq : w'.outbox = w.outbox
  period_eq : w'.period = w.period
  exportedClauses_eq : w'.stats.exportedClauses = w.stats.exportedClauses
  exportedLiterals_eq : w'.stats.exportedLiterals = w.stats.exportedLiterals
  oversizedClauses_eq : w'.stats.oversizedClauses = w.stats.oversizedClauses

namespace Worker

theorem SameExports.refl (w : Worker) : w.SameExports w := ⟨rfl, rfl, rfl, rfl, rfl, rfl⟩

theorem sameExports_shouldApply (w : Worker) : w.SameExports w.shouldApply.2 := by
  unfold shouldApply
  split
  · exact .refl w
  · split
    · exact ⟨rfl, rfl, rfl, rfl, rfl, rfl⟩
    · exact .refl w

end Worker

theorem Post.sameExports_regulate {σ : Type} (E : Engine σ) (p : Post σ) (conflicts : Nat)
    (d : Drain) : (p.worker.countExports d).SameExports (p.regulate E conflicts d).2.worker := by
  unfold regulate
  dsimp only
  rw [worker_follow]
  exact ⟨rfl, rfl, rfl, rfl, rfl, rfl⟩

namespace Mailbox

/-- The clauses of all sets. -/
theorem map_fst_contents (m : Mailbox) : m.contents.map (·.1) =
    m.past.toList.map (·.appended.toList) ++ [m.tail.appended.toList] := by
  simp [contents, ClauseSet.content, Function.comp_def]

theorem map_fst_contents_close (m : Mailbox) (n : Nat) :
    (m.close n).contents.map (·.1) = m.contents.map (·.1) := by
  cases h : m.isClosed with
  | true => rw [close_of_closed h]
  | false =>
    rw [close_of_open h, map_fst_contents, map_fst_contents]

end Mailbox

variable {σ : Type}

namespace Runner

/-- The clauses that the engine offers in the next step, which are not without literals. -/
def offers (E : Engine σ) (r : Runner σ) : List (Nat × Clause) :=
  match r.control with
  | .searching =>
    match E.request r.engine with
    | .exportCandidate c quality => if c.isEmpty then [] else [(quality, c)]
    | _ => []
  | _ => []

/-- The state of a worker's exports. -/
def shipment (c : Coordinator) (r : Runner σ) : Shipment where
  outbox := r.worker.outbox
  loading := r.control.loading
  period := r.worker.period
  past := (c.box r.worker.id).past.toList.map (·.appended.toList)
  tail := (c.box r.worker.id).tail.appended.toList
  exportedClauses := r.worker.stats.exportedClauses
  exportedLiterals := r.worker.stats.exportedLiterals
  oversizedClauses := r.worker.stats.oversizedClauses

variable {E : Engine σ} {r r' : Runner σ} {s : Shared} {c c' : Coordinator} {budget : Nat}
  {b : Boundary}

theorem loading_outside (c : Coordinator) (h : ∀ b, r.control ≠ .boundary b) :
    (r.shipment c).loading = .idle := by
  show r.control.loading = .idle
  unfold Control.loading
  split
  · exact absurd ‹_› (h _)
  · rfl

theorem offers_eq_nil (h : r.control ≠ .searching) : r.offers E = [] := by
  unfold offers
  split
  · exact absurd ‹_› h
  · rfl

theorem shipment_eq (hw : r.worker.SameExports r'.worker)
    (hloading : r'.control.loading = r.control.loading)
    (hbox : (c'.box r.worker.id).contents.map (·.1) = (c.box r.worker.id).contents.map (·.1)) :
    r'.shipment c' = r.shipment c := by
  rw [Mailbox.map_fst_contents, Mailbox.map_fst_contents] at hbox
  obtain ⟨hpast, htail⟩ := List.append_inj' hbox rfl
  unfold shipment
  rw [hw.id_eq, hw.outbox_eq, hw.period_eq, hw.exportedClauses_eq, hw.exportedLiterals_eq,
    hw.oversizedClauses_eq, hloading, hpast, List.singleton_inj.1 htail]

/-- A step that has nothing to do with exports. -/
theorem rests (hw : r.worker.SameExports r'.worker)
    (hloading : r'.control.loading = r.control.loading)
    (hbox : (c'.box r.worker.id).contents.map (·.1) = (c.box r.worker.id).contents.map (·.1)) :
    (r.shipment c).Move budget [] (r'.shipment c') := by
  rw [shipment_eq hw hloading hbox]
  exact .rest

/-! ## The engine's requests -/

theorem ships_serve (hr : r.control = .searching) (times : PhaseTimes) :
    (r.shipment c).Move budget (r.offers E) ((r.serve E times).shipment c) := by
  obtain ⟨p, control⟩ := r
  obtain rfl : control = .searching := hr
  unfold offers serve
  dsimp only
  cases E.request p.engine with
  | observe => exact .rest
  | addWork units => exact .rest
  | exportCandidate clause quality =>
    dsimp only
    unfold Worker.exportCandidate
    split
    · exact .rest
    · exact .offer rfl clause quality
  | checkPeriod =>
    dsimp only
    cases hb : p.arrive E with
    | error f => exact .rest
    | ok b =>
      rcases Post.arrive_cases E _ hb with rfl | ⟨-, counters, rfl⟩
      · exact .rest
      · exact .begin rfl
  | shouldApply =>
    have hw := p.worker.sameExports_shouldApply
    dsimp only
    rcases h : p.worker.shouldApply with ⟨f | yes, w⟩ <;> rw [h] at hw
    · exact rests hw rfl rfl
    · exact rests hw rfl rfl
  | takeImported => exact .rest
  | applyImported =>
    have hw := Post.worker_applyImported E p
    dsimp only
    rcases h : p.applyImported E with ⟨f | outcome, ⟨w, e⟩⟩ <;> rw [h] at hw <;>
      obtain rfl : w = _ := hw
    · exact .rest
    · exact .rest
  | conclude verdict => exact .rest
  | fail f => exact .rest

/-! ## The end of a period -/

/-- A step of a boundary moves the shipment, or breaks a rule. -/
def ShipsTo (r : Runner σ) (b : Boundary) (c : Coordinator) : Progression σ → Prop
  | .moved stage p s => (r.shipment c).Move r.worker.config.exportBudget []
      (shipment s.coordinator ⟨p, .boundary { b with stage }⟩)
  | .failed .. => True

theorem loading_boundary (hr : r.control = .boundary b) {stage : Stage} (hb : b.stage = stage) :
    (r.shipment c).loading = stage.loading := by rw [shipment, hr, Control.loading, hb]

theorem shipsTo_exporting (hr : r.control = .boundary b) {d : Drain} (hb : b.stage = .exporting d)
    (hid : r.worker.id < s.coordinator.numWorkers)
    (hopen : (s.coordinator.box r.worker.id).isClosed = false) :
    r.ShipsTo b s.coordinator (b.stepExporting E d r.toPost s) := by
  have hdrain : (r.shipment s.coordinator).loading = .draining d := loading_boundary hr hb
  unfold Boundary.stepExporting
  dsimp only
  split
  · rename_i outbox hpick
    have hsame := Post.sameExports_regulate E ⟨{ r.worker with outbox }, r.engine⟩
      b.counters.conflicts d
    split
    · rename_i p hp
      rw [hp] at hsame
      have hship : shipment s.coordinator ⟨p, .boundary { b with stage := .advancing }⟩ =
          shipment s.coordinator ⟨⟨Worker.countExports { r.worker with outbox } d, r.engine⟩,
            .boundary { b with stage := .advancing }⟩ := shipment_eq hsame rfl rfl
      rw [ShipsTo, hship]
      exact .finish hdrain hpick
    · trivial
  · rename_i outbox hpick
    exact .drop hdrain hpick
  · rename_i clause outbox hpick
    split
    · rename_i coordinator hc
      obtain ⟨-, -, rfl⟩ := Coordinator.onMailbox_eq_ok hc
      have happend : ((s.coordinator.box r.worker.id).append clause).2 =
          { s.coordinator.box r.worker.id with
            tail := (s.coordinator.box r.worker.id).tail.push clause } := by
        rw [Mailbox.append_eq, hopen]
        rfl
      have hship : shipment
          (s.coordinator.setBox r.worker.id ((s.coordinator.box r.worker.id).append clause).2)
          ⟨⟨{ r.worker with outbox := outbox.discount clause }, r.engine⟩,
            .boundary { b with stage := .exporting (d.move clause) }⟩ =
          { r.shipment s.coordinator with
            outbox := outbox.discount clause
            loading := .draining (d.move clause)
            tail := (r.shipment s.coordinator).tail ++ [clause] } := by
        unfold shipment
        dsimp only
        rw [Coordinator.box_setBox_self hid, happend, ClauseSet.push, Array.toList_push]
        rfl
      rw [ShipsTo, hship]
      exact .publish hdrain hpick
    · trivial

theorem shipsTo_advancing (hr : r.control = .boundary b) (hb : b.stage = .advancing)
    (hid : r.worker.id < s.coordinator.numWorkers) :
    r.ShipsTo b s.coordinator (b.stepAdvancing r.toPost s) := by
  have hloaded : (r.shipment s.coordinator).loading = .loaded := loading_boundary hr hb
  unfold Boundary.stepAdvancing
  dsimp only
  split
  · trivial
  · rename_i candidate pace _
    split
    · trivial
    · rename_i q coordinator hc
      obtain ⟨-, hok, rfl⟩ := Coordinator.onMailbox_eq_ok hc
      obtain ⟨released, hadvanced⟩ := Mailbox.eq_advanced_of_ok hok
      have hship (stage : Stage) (hstage : stage.loading = .shipped) : shipment
          (s.coordinator.setBox r.worker.id ((s.coordinator.box r.worker.id).advance candidate).2)
          ⟨⟨{ r.worker with pace }, r.engine⟩, .boundary { b with stage }⟩ =
          { r.shipment s.coordinator with
            loading := .shipped
            past := (r.shipment s.coordinator).past ++ [(r.shipment s.coordinator).tail]
            tail := [] } := by
        unfold shipment Control.loading
        dsimp only
        rw [Coordinator.box_setBox_self hid, hadvanced, Mailbox.advanced, Array.toList_push,
          List.map_append, hstage]
        rfl
      rw [ShipsTo, hship]
      · exact .ship hloaded
      · split <;> rfl

/-- A step within the part of a boundary that only imports. -/
theorem shipsTo_of_sameExports {stage : Stage} {p : Post σ} {s' : Shared}
    (hr : r.control = .boundary b) (hw : r.worker.SameExports p.worker)
    (hstage : stage.loading = b.stage.loading)
    (hbox : s'.coordinator.box r.worker.id = c.box r.worker.id) :
    r.ShipsTo b c (.moved stage p s') :=
  rests hw (by rw [hr]; exact hstage) (by rw [hbox])

theorem shipsTo_fetching (hr : r.control = .boundary b) {offset : Nat} {t : Tally}
    (hb : b.stage = .fetching offset t) :
    r.ShipsTo b s.coordinator (Boundary.stepFetching offset t r.toPost s) := by
  unfold Boundary.stepFetching
  dsimp only
  split
  · split
    · trivial
    · exact shipsTo_of_sameExports hr (.refl _) (by rw [hb]; rfl) rfl
    · exact shipsTo_of_sameExports hr (.refl _) (by rw [hb]; rfl) rfl
  · exact shipsTo_of_sameExports hr (.refl _) (by rw [hb]; rfl) rfl

theorem shipsTo_reading (hr : r.control = .boundary b) {offset q : Nat} {t : Tally}
    (hb : b.stage = .reading offset t q) :
    r.ShipsTo b s.coordinator (Boundary.stepReading offset t q r.toPost s) := by
  unfold Boundary.stepReading
  dsimp only
  split
  · exact shipsTo_of_sameExports hr (.refl _) (by rw [hb]) rfl
  · split
    · refine shipsTo_of_sameExports hr (.refl _) ?_ rfl
      rw [hb]
      split <;> rfl
    · split
      · trivial
      · exact shipsTo_of_sameExports hr ⟨rfl, rfl, rfl, rfl, rfl, rfl⟩ (by rw [hb]; rfl) rfl

theorem shipsTo_acknowledging (hr : r.control = .boundary b) {offset q : Nat} {t : Tally}
    (hb : b.stage = .acknowledging offset t q)
    (hbox : (s.coordinator.acknowledge (r.worker.neighbour offset) r.worker.id q).2.box r.worker.id =
      s.coordinator.box r.worker.id) :
    r.ShipsTo b s.coordinator (Boundary.stepAcknowledging offset t q r.toPost s) := by
  unfold Boundary.stepAcknowledging
  dsimp only
  split
  · trivial
  · rename_i coordinator hc
    rw [hc] at hbox
    exact shipsTo_of_sameExports hr (.refl _) (by rw [hb]; rfl) hbox

theorem shipsTo_averaging (hr : r.control = .boundary b) {t : Tally} (hb : b.stage = .averaging t) :
    r.ShipsTo b s.coordinator (Boundary.stepAveraging t r.toPost s) := by
  have hsame : r.worker.SameExports (r.worker.countImports t) := ⟨rfl, rfl, rfl, rfl, rfl, rfl⟩
  unfold Boundary.stepAveraging
  dsimp only
  split
  · split
    · trivial
    · split
      · trivial
      · exact shipsTo_of_sameExports hr hsame (by rw [hb]; rfl) rfl
  · exact shipsTo_of_sameExports hr hsame (by rw [hb]; rfl) rfl

theorem shipsTo_entering (hr : r.control = .boundary b) {length : Nat}
    (hb : b.stage = .entering length) :
    r.ShipsTo b s.coordinator (b.stepEntering length r.toPost s) := by
  have hshipped : (r.shipment s.coordinator).loading = .shipped := loading_boundary hr hb
  unfold Boundary.stepEntering
  split
  · trivial
  · rename_i w hw
    unfold Worker.enter at hw
    split at hw
    · cases hw
    · rename_i period hp
      obtain ⟨rfl, -⟩ := Word.add_eq_ok_iff.1 hp
      cases hw
      exact .enter hshipped

theorem shipsTo_boundary (hr : r.control = .boundary b) (hstage : ∀ goOn, b.stage ≠ .answered goOn)
    (hid : r.worker.id < s.coordinator.numWorkers) (hc : s.coordinator.AllLogs)
    (hw : r.worker.numWorkers = s.coordinator.numWorkers)
    (hfits : r.control.Fits s.coordinator r.worker) :
    r.ShipsTo b s.coordinator (b.step E r.toPost s) := by
  unfold Boundary.step
  cases hb : b.stage with
  | exporting d => exact shipsTo_exporting hr hb hid (fits_boundary hfits hr hb).1
  | advancing => exact shipsTo_advancing hr hb hid
  | fetching offset t => exact shipsTo_fetching hr hb
  | reading offset t q => exact shipsTo_reading hr hb
  | acknowledging offset t q =>
    obtain ⟨-, -, -, -, hholds, -⟩ := fits_boundary hfits hr hb
    exact shipsTo_acknowledging hr hb (box_acknowledge_own hid hc hw hholds)
  | averaging t => exact shipsTo_averaging hr hb
  | entering length => exact shipsTo_entering hr hb
  | deciding =>
    exact shipsTo_of_sameExports hr ⟨rfl, rfl, rfl, rfl, rfl, rfl⟩ (by rw [hb]; rfl) rfl
  | answered goOn => exact absurd hb (hstage goOn)

/-! ## Every step -/

/-- On its way in and out a runner exports nothing. -/
theorem ships_outside (E : Engine σ) (hid : r.worker.id < s.coordinator.numWorkers)
    (hsearching : r.control ≠ .searching) (hboundary : ∀ b, r.control ≠ .boundary b) :
    (r.shipment s.coordinator).Move budget []
      ((r.step E s).1.shipment (r.step E s).2.coordinator) := by
  obtain ⟨p, control⟩ := r
  have hclose {control' : Control} (hloading : control'.loading = control.loading) (n : Nat) :
      (shipment s.coordinator ⟨p, control⟩).Move budget [] (shipment
        (s.coordinator.setBox p.worker.id ((s.coordinator.box p.worker.id).close n))
        ⟨p, control'⟩) := by
    refine rests (.refl _) hloading ?_
    rw [Coordinator.box_setBox_self hid, Mailbox.map_fst_contents_close]
  cases control with
  | searching => exact absurd rfl hsearching
  | boundary b => exact absurd rfl (hboundary b)
  | ready =>
    unfold step Coordinator.start
    dsimp only
    cases Word.add s.coordinator.live 1 <;> exact .rest
  | reporting verdict =>
    unfold step Coordinator.report
    dsimp only
    split <;> exact .rest
  | closing verdict =>
    rw [step_closing (r := ⟨p, .closing verdict⟩) E rfl hid]
    exact hclose rfl _
  | leaving ending =>
    rw [step_leaving (r := ⟨p, .leaving ending⟩) E rfl hid]
    exact hclose rfl _
  | signingOff ending =>
    unfold step Coordinator.stop
    dsimp only
    split
    · exact .rest
    · cases ending <;> exact .rest
  | handingIn verdict =>
    unfold step
    dsimp only
    split <;> exact .rest
  | finished statistics => exact .rest
  | panicked f => exact .rest

/-- Every step of a runner moves its shipment, or breaks a rule within a boundary. -/
theorem ships (E : Engine σ) (hid : r.worker.id < s.coordinator.numWorkers)
    (hc : s.coordinator.AllLogs) (hw : r.worker.numWorkers = s.coordinator.numWorkers)
    (hfits : r.control.Fits s.coordinator r.worker) (hsound : .broken ∉ r.events E s) :
    (r.shipment s.coordinator).Move r.worker.config.exportBudget (r.offers E)
      ((r.step E s).1.shipment (r.step E s).2.coordinator) := by
  by_cases hsearching : r.control = .searching
  · rw [step_searching E s hsearching]
    exact ships_serve hsearching _
  rw [offers_eq_nil hsearching]
  by_cases hboundary : ∃ b, r.control = .boundary b
  · obtain ⟨b, hr⟩ := hboundary
    by_cases hb : ∃ goOn, b.stage = .answered goOn
    · obtain ⟨goOn, hb⟩ := hb
      rw [step_answered E s hr hb]
      exact rests (.refl _) (by rw [hr, Control.loading, hb]; rfl) rfl
    · push Not at hb
      have hship := shipsTo_boundary (E := E) hr hb hid hc hw hfits
      rw [events_boundary E s hr] at hsound
      rw [step_boundary E s hr hb]
      cases hp : b.step E r.toPost s with
      | moved stage p s' =>
        rw [hp] at hship
        exact hship
      | failed f p s' => simp [hp] at hsound
  · push Not at hboundary
    exact ships_outside E hid hsearching hboundary

end Runner

namespace Mailbox

variable {m : Mailbox} {owner workers window : Nat}

/-- The clauses of the complete sets of all earlier periods. -/
theorem IsLog.map_clauses? (h : m.IsLog owner workers window) :
    (List.range m.past.size).map (fun q => (m.set? q).bind (·.clauses?)) =
      (m.past.toList.map (·.appended.toList)).map some := by
  refine List.ext_getElem (by simp) fun q hq _ => ?_
  rw [List.length_map, List.length_range] at hq
  have hs : m.set? q = some m.past[q] := by
    rw [set?, if_neg hq.ne, Array.getElem?_eq_getElem hq]
  have hcompleted := (h.past_set q _ (Array.getElem?_eq_getElem hq)).2.2
  rw [List.getElem_map, List.getElem_range, hs, Option.bind_some, ClauseSet.clauses?,
    if_pos hcompleted]
  simp

theorem appended_mem_of_set? {q : Nat} {s : ClauseSet} (hs : m.set? q = some s) :
    s.appended.toList ∈ m.past.toList.map (·.appended.toList) ++ [m.tail.appended.toList] := by
  unfold set? at hs
  split at hs
  · obtain rfl := Option.some.inj hs
    exact List.mem_append_right _ (List.mem_singleton_self _)
  · obtain ⟨hq, rfl⟩ := Array.getElem?_eq_some_iff.1 hs
    exact List.mem_append_left _ (List.mem_map_of_mem (Array.getElem_mem_toList hq))

end Mailbox

/-! ## Whole runs -/

/-- What has become of the clauses in `offered`: those in `departed` have left the worker's outbox, and
`sets` is what its mailbox `m` has for the periods so far. -/
structure Worker.AccountsFor (w : Worker) (m : Mailbox) (budget : Nat)
    (offered departed : List (Nat × Clause)) (sets : List (List Clause)) : Prop where
  sets_eq : (List.range w.period).map (fun q => (m.set? q).bind (·.clauses?)) = sets.map some
  /-- Every clause has departed or is still staged, -/
  perm : offered.Perm (departed ++ w.outbox.staged)
  /-- among clauses of one quality in the order in which they were offered. -/
  order : ∀ quality, offered.filter (·.1 = quality) =
    departed.filter (·.1 = quality) ++ w.outbox.staged.filter (·.1 = quality)
  /-- What has departed lies in the sets, unless it exceeds the budget, -/
  published : (departed.filter fun d => d.2.fits budget).map (·.2) = sets.flatten
  /-- and the counters say how much that is. -/
  exportedClauses_eq : w.stats.exportedClauses = sets.flatten.length
  exportedLiterals_eq : w.stats.exportedLiterals = totalLength sets.flatten
  oversizedClauses_eq : w.stats.oversizedClauses =
    (departed.filter fun d => !d.2.fits budget).length
  /-- No set exceeds a budget. -/
  within : 0 < budget → ∀ q s, m.set? q = some s → s.numLiterals ≤ budget

/-- An outbox counts what it holds, and knows its qualities. -/
structure Outbox.IsCounted (o : Outbox) : Prop where
  numClauses_eq : o.numClauses = o.staged.length
  numLiterals_eq : o.numLiterals = totalLength (o.staged.map (·.2))
  keys_sorted : o.keys.Pairwise (· < ·)
  mem_keys : ∀ quality, quality ∈ o.keys ↔ ∃ d, (quality, d) ∈ o.staged

namespace Exchange

variable {config : Config} {x : Exchange σ} {w : Nat} {r : Runner σ}

/-- The clauses that the engine of worker `w` offers along a schedule, with their qualities. -/
def offers (E : Engine σ) (x : Exchange σ) (schedule : List Nat) (w : Nat) : List (Nat × Clause) :=
  x.record E (fun r _ => r.offers E) schedule w

theorem Fresh.shipment_eq (h : x.Fresh config) (hr : x.runners[w]? = some r) :
    r.shipment x.shared.coordinator = ⟨{}, .idle, 0, [], [], 0, 0, 0⟩ := by
  have hw : w < config.numWorkers := by
    rw [← h.size_runners]
    exact (Array.getElem?_eq_some_iff.1 hr).1
  unfold Runner.shipment
  rw [h.control_eq w r hr, h.worker hr]
  dsimp only
  rw [h.box_eq w hw]
  rfl

/-- The exports of a worker along a schedule, unless a rule is broken within a boundary. -/
theorem Standing.shipment_follow (h : x.Standing config) (E : Engine σ)
    (hr : x.runners[w]? = some r) (t : List Nat) :
    ∃ q, (x.follow E t).runners[w]? = some q ∧ (.broken ∉ x.journal E t w →
      (r.shipment x.shared.coordinator).Run config.exportBudget (x.offers E t w)
        (q.shipment (x.follow E t).shared.coordinator)) := by
  refine h.record_follow E (fun r _ => r.offers E) hr (P := fun c q events log =>
    .broken ∉ events → (r.shipment x.shared.coordinator).Run config.exportBudget log
      (q.shipment c)) (fun _ => .refl) ?_ ?_ t
  · intro t q events log hq hrun hsound
    have hy := h.follow E t
    rw [List.mem_append, not_or] at hsound
    obtain ⟨hid, -, hconfig, -, hfits⟩ := hy.runner w q hq
    have hmove := Runner.ships E (by rw [hid]; exact hy.lt_mailboxes (hy.lt_numWorkers hq)) hy.logs
      (hy.worker_numWorkers_eq hq) hfits hsound.2
    rw [hconfig] at hmove
    exact (hrun hsound.1).tail hmove
  · intro t j c q events log hq hwj hj heff hrun hsound
    have hid := ((h.follow E t).runner w q hq).id_eq
    have hbox := heff.contents_eq hj (v := q.worker.id) (by rw [hid]; exact hwj)
    rw [Runner.shipment_eq (.refl _) rfl (congrArg (List.map (·.1)) hbox)]
    exact hrun hsound

/-- The exports of every worker are accounted for, unless a rule is broken within a boundary. -/
theorem Fresh.sound_follow (h : x.Fresh config) (E : Engine σ) (schedule : List Nat)
    (hr : (x.follow E schedule).runners[w]? = some r)
    (hsound : .broken ∉ x.journal E schedule w) : ∃ departed,
      (r.shipment (x.follow E schedule).shared.coordinator).Sound config.exportBudget
        (x.offers E schedule w) departed := by
  obtain ⟨r₀, hr₀⟩ := h.standing.exists_runner ((h.standing.follow E schedule).lt_numWorkers hr)
  obtain ⟨q, hq, hrun⟩ := h.standing.shipment_follow E hr₀ schedule
  obtain rfl := Option.some.inj (hq.symm.trans hr)
  have hnil := Shipment.Sound.nil config.exportBudget
  rw [← h.shipment_eq hr₀] at hnil
  exact hnil.run (hrun hsound)

/-- Worker `w`, whose runner is `r` after the schedule, has exported without loss. -/
structure ConservesExports (x : Exchange σ) (E : Engine σ) (config : Config)
    (schedule : List Nat) (w : Nat) (r : Runner σ) : Prop where
  /-- The clauses that its engine has offered are accounted for. -/
  account : ∃ m departed sets, (x.follow E schedule).shared.coordinator.mailbox w = .ok m ∧
    r.worker.AccountsFor m config.exportBudget (x.offers E schedule w) departed sets
  outbox : r.worker.outbox.IsCounted
  /-- Until it is outside of a boundary again, every boundary takes at least one clause out of an
  outbox that is not empty, -/
  progress : ∀ t r', (x.follow E (schedule ++ t)).runners[w]? = some r' →
    (∀ b, r'.control ≠ .boundary b) → .broken ∉ x.journal E (schedule ++ t) w →
    r'.worker.outbox.staged.length +
        min (r'.worker.period - r.worker.period) r.worker.outbox.staged.length ≤
      r.worker.outbox.staged.length + ((x.follow E schedule).offers E t w).length
  /-- and without new offers the outbox is empty in the end. -/
  emptied : ∀ t r', (x.follow E (schedule ++ t)).runners[w]? = some r' →
    (∀ b, r'.control ≠ .boundary b) → .broken ∉ x.journal E (schedule ++ t) w →
    (x.follow E schedule).offers E t w = [] →
    r.worker.outbox.staged.length ≤ r'.worker.period - r.worker.period →
    r'.worker.outbox.staged = []

/-- Later boundaries take clauses out of the outbox, unless it is empty. -/
theorem Standing.staged_le_follow (h : x.Standing config) (E : Engine σ)
    (hr : x.runners[w]? = some r) {offered departed : List (Nat × Clause)}
    (hship : (r.shipment x.shared.coordinator).Sound config.exportBudget offered departed)
    (houtside : ∀ b, r.control ≠ .boundary b) (t : List Nat) {r' : Runner σ}
    (hr' : (x.follow E t).runners[w]? = some r') (houtside' : ∀ b, r'.control ≠ .boundary b)
    (hsound : .broken ∉ x.journal E t w) :
    r'.worker.outbox.staged.length +
        min (r'.worker.period - r.worker.period) r.worker.outbox.staged.length ≤
      r.worker.outbox.staged.length + (x.offers E t w).length := by
  obtain ⟨q, hq, hrun⟩ := h.shipment_follow E hr t
  obtain rfl := Option.some.inj (hr'.symm.trans hq)
  have hle := hship.length_staged_le (hrun hsound)
  rwa [Shipment.rounds, Shipment.rounds, Runner.loading_outside _ houtside,
    Runner.loading_outside _ houtside'] at hle

/-- Exports lose and duplicate nothing. For a worker outside of a boundary, and unless it has broken
a rule within one, every clause that its engine has offered has departed or is still staged. What has
departed lies in the worker's sets of the periods so far, in the order in which it was offered among
clauses of one quality, unless it exceeds the budget. Later on, every boundary has taken at least one
clause out of an outbox that was not empty. -/
theorem Assembled.exports_conserved (E : Engine σ) (h : x.Assembled config) (schedule : List Nat)
    (hr : (x.follow E schedule).runners[w]? = some r) (houtside : ∀ b, r.control ≠ .boundary b)
    (hsound : .broken ∉ x.journal E schedule w) : x.ConservesExports E config schedule w r := by
  have hx := h.fresh.standing.follow E schedule
  have hw := hx.lt_mailboxes (hx.lt_numWorkers hr)
  have hlog := hx.logs w hw
  have hid := (hx.runner w r hr).id_eq
  let c := (x.follow E schedule).shared.coordinator
  obtain ⟨departed, hship⟩ := h.fresh.sound_follow E schedule hr hsound
  have hidle := Runner.loading_outside c houtside
  obtain ⟨hpast, hpublished, hclauses, hliterals, hoversized⟩ := hship.of_idle hidle
  have hfilled := hship.filled fun d hd => by rw [hidle] at hd; cases hd
  have hsize : (c.box w).past.size = r.worker.period := by
    simpa [Runner.shipment, hid] using hpast
  have hprogress (t : List Nat) (r' : Runner σ)
      (hr' : (x.follow E (schedule ++ t)).runners[w]? = some r')
      (houtside' : ∀ b, r'.control ≠ .boundary b)
      (hsound' : .broken ∉ x.journal E (schedule ++ t) w) :
      r'.worker.outbox.staged.length +
          min (r'.worker.period - r.worker.period) r.worker.outbox.staged.length ≤
        r.worker.outbox.staged.length + ((x.follow E schedule).offers E t w).length := by
    rw [journal_append, List.mem_append, not_or] at hsound'
    rw [follow_append] at hr'
    exact hx.staged_le_follow E hr hship houtside t hr' houtside' hsound'.2
  refine ⟨⟨c.box w, departed, (r.shipment c).past, Coordinator.mailbox_eq hw, ?_, hship.perm,
    hship.order, hpublished, hclauses, hliterals, hoversized, fun hpos q s hs => ?_⟩,
    ⟨hship.exact.numClauses_eq, hship.exact.numLiterals_eq, (hship.exact.keys hfilled).1,
      (hship.exact.keys hfilled).2⟩, hprogress, fun t r' hr' houtside' hsound' hlater hlong => ?_⟩
  · rw [← hsize, hlog.map_clauses?, Runner.shipment, hid]
  · rw [ClauseSet.numLiterals_eq]
    refine hship.within hpos _ ?_
    rw [Runner.shipment, hid]
    exact Mailbox.appended_mem_of_set? hs
  · have hle := hprogress t r' hr' houtside' hsound'
    rw [hlater, List.length_nil] at hle
    exact List.length_eq_zero_iff.1 (by omega)

/-- A scripted engine offers a unit, a clause of two literals and one of five in every step, and four
literals are exported in a period. So the long clauses are dropped, and some of two literals are left
behind. -/
theorem exports_conserved_scripted : ∃ (p : Portfolio Scripted) (r : Runner Scripted),
    p.toExchange.Assembled { numWorkers := 1, periodLength := 20, exportBudget := 4 } ∧
    (p.toExchange.follow Scripted.engine (List.replicate 83 0)).runners[0]? = some r ∧
    r.control = .searching ∧ r.worker.stats.exportedLiterals = 12 ∧
    r.worker.stats.oversizedClauses = 6 ∧ r.worker.outbox.keys = [2] ∧
    ∃ departed, (p.toExchange.offers Scripted.engine (List.replicate 83 0) 0).Perm
      (departed ++ r.worker.outbox.staged) := by
  obtain ⟨p, hp, hcheck⟩ := exists_eq_ok_of_check
    (x := Portfolio.launch ([{ script := { offers := [{ literals := [1] },
      { literals := [2, 3], quality := 2 }, { literals := [4, 5, 6, 7, 8] }] } }] : List Scripted)
      { numWorkers := 1, periodLength := 20, exportBudget := 4 } {})
    (q := fun p =>
      let x := p.toExchange.follow Scripted.engine (List.replicate 83 0)
      x.runners[0]?.any (fun r : Runner Scripted => decide (r.control = .searching) &&
        decide (r.worker.stats.exportedLiterals = 12) &&
        decide (r.worker.stats.oversizedClauses = 6) && decide (r.worker.outbox.keys = [2])) &&
        !(p.toExchange.journal Scripted.engine (List.replicate 83 0) 0).contains .broken)
    (by decide +kernel)
  simp only [Bool.and_eq_true, Bool.not_eq_true', Option.any_eq_true, decide_eq_true_eq] at hcheck
  obtain ⟨⟨r, hr, ⟨⟨hcontrol, hliterals⟩, hdropped⟩, hkeys⟩, hsound⟩ := hcheck
  have hassembled := Portfolio.assembled_of_launch hp
  have h := hassembled.exports_conserved Scripted.engine (List.replicate 83 0) hr
    (by simp [hcontrol]) (by simpa using hsound)
  obtain ⟨m, departed, sets, -, haccount⟩ := h.account
  exact ⟨p, r, hassembled, hr, hcontrol, hliterals, hdropped, hkeys, departed, haccount.perm⟩

end Exchange

end ClauseExchange
