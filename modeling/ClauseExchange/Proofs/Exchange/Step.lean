import ClauseExchange.Proofs.Exchange.Calls
import ClauseExchange.Proofs.Exchange.Journal
import ClauseExchange.Proofs.Outbox.Staged

/-!
# What a step of a runner can be

`Runner.Step r c events r' c'` lists every way in which a runner can get from `r` to `r'` while the
coordinator gets from `c` to `c'`, with what the step brings to the worker's journal. It leaves out
the engine, which may do as it likes. `Runner.step_cases` says that every step is one of these; all
invariants of an exchange are proved from it.
-/

namespace ClauseExchange

/-- What no step changes about a worker; a clause is only staged if it has a literal. -/
structure Worker.Same (w w' : Worker) : Prop where
  id_eq : w'.id = w.id
  numWorkers_eq : w'.numWorkers = w.numWorkers
  config_eq : w'.config = w.config
  staged : ∀ p ∈ w'.outbox.staged, p ∈ w.outbox.staged ∨ p.2.isEmpty = false

/-- What changes about a worker only when it imports, enters a period or decides. -/
structure Worker.Quiet (w w' : Worker) : Prop extends w.Same w' where
  period_eq : w'.period = w.period
  stopped_eq : w'.stopped = w.stopped
  pending_eq : w'.pending = w.pending
  length_eq : w'.periodLength = w.periodLength

/-- Two states of a coordinator that differ at most in the number of running workers. -/
structure Coordinator.SameBoard (c c' : Coordinator) : Prop where
  mailboxes_eq : c'.mailboxes = c.mailboxes
  margin_eq : c'.margin = c.margin
  periodLength_eq : c'.periodLength = c.periodLength
  winner_eq : c'.winner? = c.winner?

namespace Worker

theorem Same.refl (w : Worker) : w.Same w := ⟨rfl, rfl, rfl, fun _ h => .inl h⟩

theorem Quiet.refl (w : Worker) : w.Quiet w := ⟨Same.refl w, rfl, rfl, rfl, rfl⟩

theorem Same.trans {w₁ w₂ w₃ : Worker} (h : w₁.Same w₂) (h' : w₂.Same w₃) : w₁.Same w₃ where
  id_eq := h'.id_eq.trans h.id_eq
  numWorkers_eq := h'.numWorkers_eq.trans h.numWorkers_eq
  config_eq := h'.config_eq.trans h.config_eq
  staged p hp := (h'.staged p hp).elim (h.staged p) .inr

theorem Quiet.trans {w₁ w₂ w₃ : Worker} (h : w₁.Quiet w₂) (h' : w₂.Quiet w₃) : w₁.Quiet w₃ where
  toSame := h.toSame.trans h'.toSame
  period_eq := h'.period_eq.trans h.period_eq
  stopped_eq := h'.stopped_eq.trans h.stopped_eq
  pending_eq := h'.pending_eq.trans h.pending_eq
  length_eq := h'.length_eq.trans h.length_eq

/-- The length of the next period that follows from the counts of a boundary: with an adaptive
length the worker's own candidate counts as well. -/
def nextLength (w : Worker) (c : Coordinator) (t : Tally) : Nat :=
  if w.config.isAdaptive then
    let own? := ((c.box w.id).lookup (w.importPeriod c.margin)).bind (·.nextLength?)
    Pace.combine w.config w.periodLength (t.lengthSum + own?.getD 0)
      (t.candidates + own?.toList.length)
  else w.periodLength

end Worker

namespace Runner

variable {σ : Type}

/-- The ways in which a runner can take a step. -/
inductive Step (r : Runner σ) (c : Coordinator) : List Event → Runner σ → Coordinator → Prop
  | stay : Step r c [] r c
  | start {c' : Coordinator} (hr : r.control = .ready) (hc : c.SameBoard c') :
      Step r c [] { r with control := .searching } c'
  | serve {w : Worker} {e : σ} (hr : r.control = .searching) (hw : r.worker.Quiet w) :
      Step r c [] ⟨⟨w, e⟩, .searching⟩ c
  | take {e : σ} {k : Control} (hr : r.control = .searching)
      (hk : k = .searching ∨ ∃ f, k = .leaving (.broken f)) :
      Step r c [.taken r.worker.pending] ⟨⟨{ r.worker with pending := {} }, e⟩, k⟩ c
  | arrive {counters : EngineStatistics} (hr : r.control = .searching)
      (hstopped : r.worker.stopped = false) :
      Step r c [] { r with control := .boundary ⟨counters, .exporting {}⟩ } c
  | pass (hr : r.control = .searching) :
      Step r c [] { r with control := .boundary ⟨{}, .answered (!r.worker.stopped)⟩ } c
  | conclude {verdict : Verdict} (hr : r.control = .searching) :
      Step r c [] { r with control := .reporting verdict } c
  | reply {b : Boundary} {goOn : Bool} {e : σ} (hr : r.control = .boundary b)
      (hb : b.stage = .answered goOn) : Step r c [] ⟨⟨r.worker, e⟩, .searching⟩ c
  | sort {b : Boundary} {d : Drain} {w : Worker} {e : σ} {stage : Stage}
      (hr : r.control = .boundary b) (hb : b.stage = .exporting d) (hw : r.worker.Quiet w)
      (hstage : stage = .advancing ∨ ∃ d', stage = .exporting d') :
      Step r c [] ⟨⟨w, e⟩, .boundary { b with stage }⟩ c
  | publish {b : Boundary} {d d' : Drain} {w : Worker} {clause : Clause} {quality : Nat}
      (hr : r.control = .boundary b) (hb : b.stage = .exporting d) (hw : r.worker.Quiet w)
      (hclause : (quality, clause) ∈ r.worker.outbox.staged) :
      Step r c [] ⟨⟨w, r.engine⟩, .boundary { b with stage := .exporting d' }⟩
        (c.setBox r.worker.id ((c.box r.worker.id).append clause).2)
  | advance {b : Boundary} {w : Worker} {nextLength q : Nat} (hr : r.control = .boundary b)
      (hb : b.stage = .advancing) (hw : r.worker.Quiet w)
      (hok : ((c.box r.worker.id).advance nextLength).1 = .ok q) :
      Step r c []
        ⟨⟨w, r.engine⟩, .boundary
          { b with
            stage := if w.period < c.margin then .entering w.periodLength else .fetching 1 {} }⟩
        (c.setBox r.worker.id ((c.box r.worker.id).advance nextLength).2)
  | skip {b : Boundary} {offset : Nat} {t : Tally} (hr : r.control = .boundary b)
      (hb : b.stage = .fetching offset t) (ho : offset < r.worker.numWorkers)
      (hf : c.fetch (r.worker.neighbour offset) r.worker.id (r.worker.importPeriod c.margin) =
        .ok none) :
      Step r c [] { r with control := .boundary { b with stage := .fetching (offset + 1) t } } c
  | fetch {b : Boundary} {offset : Nat} {t : Tally} {set : ClauseSet} (hr : r.control = .boundary b)
      (hb : b.stage = .fetching offset t) (ho : offset < r.worker.numWorkers)
      (hf : c.fetch (r.worker.neighbour offset) r.worker.id (r.worker.importPeriod c.margin) =
        .ok (some set)) :
      Step r c [] { r with control := .boundary { b with stage := .reading offset t set.period } } c
  | survey {b : Boundary} {offset : Nat} {t : Tally} (hr : r.control = .boundary b)
      (hb : b.stage = .fetching offset t) (ho : r.worker.numWorkers ≤ offset) :
      Step r c [] { r with control := .boundary { b with stage := .averaging t } } c
  | passOver {b : Boundary} {offset q : Nat} {t : Tally} (hr : r.control = .boundary b)
      (hb : b.stage = .reading offset t q) (hmode : r.worker.config.nonDeterministic = true)
      (hopen : ∃ set, c.set? (r.worker.neighbour offset) q = some set ∧ set.isCompleted = false) :
      Step r c [] { r with control := .boundary { b with stage := .fetching (offset + 1) t } } c
  | read {b : Boundary} {offset q n : Nat} {t t' : Tally} {cs : List Clause}
      (hr : r.control = .boundary b) (hb : b.stage = .reading offset t q)
      (hf : c.frozen? (r.worker.neighbour offset) q = some (cs, n))
      (hadd : ∃ set, c.set? (r.worker.neighbour offset) q = some set ∧
        t.add set (r.worker.importPeriod c.margin) = .ok t') :
      Step r c [.imported (r.worker.neighbour offset) q cs]
        ⟨⟨{ r.worker with pending := r.worker.pending.append cs }, r.engine⟩,
          .boundary { b with stage := .acknowledging offset t' q }⟩ c
  | acknowledge {b : Boundary} {offset q : Nat} {t : Tally} (hr : r.control = .boundary b)
      (hb : b.stage = .acknowledging offset t q)
      (hok : (c.acknowledge (r.worker.neighbour offset) r.worker.id q).1 = .ok ()) :
      Step r c
        [.acknowledged (r.worker.neighbour offset) q
          (c.frozen? (r.worker.neighbour offset) q).isSome]
        { r with control := .boundary { b with stage := .fetching offset t } }
        (c.acknowledge (r.worker.neighbour offset) r.worker.id q).2
  | average {b : Boundary} {t : Tally} {w : Worker} {length : Nat} (hr : r.control = .boundary b)
      (hb : b.stage = .averaging t) (hw : r.worker.Quiet w)
      (hlength : length = r.worker.nextLength c t) :
      Step r c [] ⟨⟨w, r.engine⟩, .boundary { b with stage := .entering length }⟩ c
  | enter {b : Boundary} {w : Worker} {length : Nat} (hr : r.control = .boundary b)
      (hb : b.stage = .entering length) (hw : r.worker.Same w)
      (hperiod : w.period = r.worker.period + 1) (hword : w.period < Word.bound)
      (hstopped : w.stopped = r.worker.stopped) (hpending : w.pending = r.worker.pending)
      (hlength : w.periodLength = length) :
      Step r c [.entered length] ⟨⟨w, r.engine⟩, .boundary { b with stage := .deciding }⟩ c
  | decide {b : Boundary} {stop : Bool} (hr : r.control = .boundary b) (hb : b.stage = .deciding)
      (hstop : r.worker.config.limits.time = none → r.worker.config.limits.memory = none →
        stop = c.shouldTerminate r.worker.period) :
      Step r c []
        ⟨⟨{ r.worker with stopped := stop }, r.engine⟩,
          .boundary { b with stage := .answered (!stop) }⟩ c
  /-- A rule is broken within a boundary, perhaps after some `events`. -/
  | fail (events : List Event) {b : Boundary} {w : Worker} {e : σ} {f : Fault} {c' : Coordinator}
      (hr : r.control = .boundary b) (hb : b.stage ≠ .deciding) (hw : r.worker.Same w)
      (hperiod : w.period = r.worker.period)
      (hstopped : w.stopped = r.worker.stopped)
      (hc : c' = c ∨
        (∃ n f, b.stage = .advancing ∧ ((c.box r.worker.id).advance n).1 = .error f ∧
          c' = c.setBox r.worker.id ((c.box r.worker.id).advance n).2) ∨
        ∃ offset t q f, b.stage = .acknowledging offset t q ∧
          (c.acknowledge (r.worker.neighbour offset) r.worker.id q).1 = .error f ∧
          c' = (c.acknowledge (r.worker.neighbour offset) r.worker.id q).2)
      (hlength : w.periodLength = r.worker.periodLength)
      (hevents : events = [] ∨ ∃ offset t q cs, b.stage = .reading offset t q ∧
        events = [.imported (r.worker.neighbour offset) q cs]) :
      Step r c (events ++ [.broken]) ⟨⟨w, e⟩, .leaving (.broken f)⟩ c'
  /-- A rule is broken outside a boundary. -/
  | give {w : Worker} {e : σ} {f : Fault}
      (hr : r.control = .ready ∨ r.control = .searching ∨
        ∃ verdict f, r.control = .reporting verdict ∧
          Report.displaces ⟨verdict, ⟨r.worker.period, r.worker.id⟩⟩ c.winner? = .error f)
      (hw : r.worker.Quiet w) : Step r c [] ⟨⟨w, e⟩, .leaving (.broken f)⟩ c
  | report {verdict : Verdict} {best : Bool} (hr : r.control = .reporting verdict)
      (hbest : Report.displaces ⟨verdict, ⟨r.worker.period, r.worker.id⟩⟩ c.winner? = .ok best) :
      Step r c [] { r with control := .closing verdict }
        { c with
          winner? :=
            if best then some ⟨verdict, ⟨r.worker.period, r.worker.id⟩⟩ else c.winner? }
  | close {verdict : Verdict} {n : Nat} (hr : r.control = .closing verdict) :
      Step r c [] { r with control := .leaving (.concluded verdict) }
        (c.setBox r.worker.id ((c.box r.worker.id).close n))
  | leave {ending : Ending} {n : Nat} (hr : r.control = .leaving ending) :
      Step r c [] { r with control := .signingOff ending }
        (c.setBox r.worker.id ((c.box r.worker.id).close n))
  | signOff {ending : Ending} {k : Control} {c' : Coordinator} (hr : r.control = .signingOff ending)
      (hc : c.SameBoard c')
      (hk : (∃ f, k = .panicked f) ∨
        ∃ verdict, ending = .concluded verdict ∧ k = .handingIn verdict) :
      Step r c [] { r with control := k } c'
  | handIn {verdict : Verdict} {k : Control} (hr : r.control = .handingIn verdict)
      (hk : (∃ f, k = .panicked f) ∨ ∃ stats, stats.verdict = verdict ∧ k = .finished stats) :
      Step r c [] { r with control := k } c

end Runner

/-! ## What the engine's requests change -/

namespace Worker

theorem quiet_addWork (w : Worker) (units : Nat) : w.Quiet (w.addWork units) :=
  ⟨⟨rfl, rfl, rfl, fun _ h => .inl h⟩, rfl, rfl, rfl, rfl⟩

theorem quiet_exportCandidate (w : Worker) (c : Clause) (quality : Nat) :
    w.Quiet (w.exportCandidate c quality) := by
  unfold exportCandidate
  split
  · exact .refl w
  · rename_i hc
    refine ⟨⟨rfl, rfl, rfl, fun p hp => ?_⟩, rfl, rfl, rfl, rfl⟩
    rcases (Outbox.mem_staged_add _ _ _ _).1 hp with rfl | hp
    · exact .inr (by simpa using hc)
    · exact .inl hp

theorem quiet_shouldApply (w : Worker) : w.Quiet w.shouldApply.2 := by
  unfold shouldApply
  split
  · exact .refl w
  · split
    · exact ⟨⟨rfl, rfl, rfl, fun _ h => .inl h⟩, rfl, rfl, rfl, rfl⟩
    · exact .refl w

end Worker

namespace Post

variable {σ : Type} (E : Engine σ) (p : Post σ)

theorem arrive_cases {b : Boundary} (h : p.arrive E = .ok b) :
    b = ⟨{}, .answered (!p.worker.stopped)⟩ ∨
      p.worker.stopped = false ∧ ∃ counters, b = ⟨counters, .exporting {}⟩ := by
  unfold arrive at h
  cases hst : p.worker.stopped with
  | true =>
    rw [hst, if_pos rfl] at h
    exact .inl (Except.ok.inj h).symm
  | false =>
    rw [hst, if_neg Bool.false_ne_true] at h
    split at h
    · cases hstat : E.statistics p.engine with
      | error f => rw [hstat] at h; cases h
      | ok counters =>
        rw [hstat] at h
        exact .inr ⟨rfl, counters, (Except.ok.inj h).symm⟩
    · exact .inl (Except.ok.inj h).symm

theorem worker_applyImported :
    (p.applyImported E).2.worker = { p.worker with pending := {} } := by
  unfold applyImported Worker.takeImported
  dsimp only
  split <;> rfl

theorem worker_follow (advice : Advice) : (p.follow E advice).2.worker = p.worker := by
  unfold follow
  split <;> rfl

theorem quiet_regulate (conflicts : Nat) (d : Drain) :
    p.worker.Quiet (p.regulate E conflicts d).2.worker := by
  unfold regulate
  dsimp only
  rw [worker_follow]
  exact ⟨⟨rfl, rfl, rfl, fun _ h => .inl h⟩, rfl, rfl, rfl, rfl⟩

end Post

namespace Runner

variable {σ : Type} (E : Engine σ) (r : Runner σ) (s : Shared)

/-! ## Every step is one of these -/

theorem serve_cases (times : PhaseTimes) (hr : r.control = .searching) :
    Step r s.coordinator (r.events E s) (r.serve E times) s.coordinator := by
  unfold events
  rw [hr]
  unfold serve
  cases E.request r.engine with
  | observe => exact .serve hr (.refl _)
  | addWork units => exact .serve hr (Worker.quiet_addWork _ units)
  | exportCandidate c quality => exact .serve hr (Worker.quiet_exportCandidate _ c quality)
  | checkPeriod =>
    cases hb : r.toPost.arrive E with
    | error f => exact .give (.inr (.inl hr)) (.refl _)
    | ok b =>
      rcases Post.arrive_cases E _ hb with rfl | ⟨hst, counters, rfl⟩
      · exact .pass hr
      · exact .arrive hr hst
  | shouldApply =>
    have hq := r.worker.quiet_shouldApply
    rcases h : r.worker.shouldApply with ⟨f | yes, w⟩
    · rw [h] at hq
      exact .give (.inr (.inl hr)) hq
    · rw [h] at hq
      exact .serve hr hq
  | takeImported => exact .take hr (.inl rfl)
  | applyImported =>
    have hw := Post.worker_applyImported E r.toPost
    rcases h : r.toPost.applyImported E with ⟨f | outcome, ⟨w, e⟩⟩
    · rw [h] at hw
      obtain rfl : w = _ := hw
      exact .take hr (.inr ⟨f, rfl⟩)
    · rw [h] at hw
      obtain rfl : w = _ := hw
      exact .take hr (.inl rfl)
  | conclude verdict => exact .conclude hr
  | fail f => exact .give (.inr (.inl hr)) (.refl _)

/-- The outcome of a step of boundary `b` is one that `Runner.Step` allows. -/
def Allowed (r : Runner σ) (b : Boundary) (c : Coordinator) (events : List Event) :
    Progression σ → Prop
  | .moved stage p s => Step r c events ⟨p, .boundary { b with stage }⟩ s.coordinator
  | .failed f p s => Step r c (events ++ [.broken]) ⟨p, .leaving (.broken f)⟩ s.coordinator

variable {E r s} {b : Boundary}

theorem allowed_exporting (hr : r.control = .boundary b) {d : Drain} (hb : b.stage = .exporting d) :
    Allowed r b s.coordinator [] (b.stepExporting E d r.toPost s) := by
  have hsame {w : Worker} {o : Outbox} (hw : w = { r.worker with outbox := o })
      (ho : ∀ p ∈ o.staged, p ∈ r.worker.outbox.staged) : r.worker.Quiet w := by
    subst hw
    exact ⟨⟨rfl, rfl, rfl, fun p hp => .inl (ho p hp)⟩, rfl, rfl, rfl, rfl⟩
  unfold Boundary.stepExporting
  dsimp only
  split
  · rename_i outbox ho
    have hq₁ := hsame rfl (fun p hp => by rwa [Outbox.staged_of_pick_over ho] at hp)
    have hq₂ := Post.quiet_regulate E ⟨{ r.worker with outbox }, r.engine⟩ b.counters.conflicts d
    split
    · rename_i p hp
      rw [hp] at hq₂
      exact .sort hr hb (hq₁.trans hq₂) (.inl rfl)
    · rename_i f p hp
      rw [hp] at hq₂
      have hq := hq₁.trans hq₂
      exact .fail [] hr (by simp [hb]) hq.toSame hq.period_eq hq.stopped_eq (.inl rfl)
        hq.length_eq (.inl rfl)
  · rename_i outbox ho
    obtain ⟨p, hp⟩ := Outbox.staged_of_pick_oversized ho
    exact .sort hr hb (hsame rfl fun q hq => by rw [hp]; exact List.mem_cons_of_mem _ hq)
      (.inr ⟨_, rfl⟩)
  · rename_i clause outbox ho
    obtain ⟨quality, hp⟩ := Outbox.staged_of_pick_publish ho
    have hq : ∀ q ∈ outbox.staged, q ∈ r.worker.outbox.staged := fun q hq => by
      rw [hp]
      exact List.mem_cons_of_mem _ hq
    split
    · rename_i coordinator hc
      have hc₂ : coordinator = _ := (congrArg Prod.snd hc).symm.trans (Coordinator.onMailbox_snd ..)
      rw [Allowed, hc₂]
      exact .publish hr hb (hsame rfl hq) (by rw [hp]; exact List.mem_cons_self)
    · rename_i f coordinator hc
      have hsnd : coordinator = s.coordinator := by
        have h₂ : coordinator = _ :=
          (congrArg Prod.snd hc).symm.trans (Coordinator.onMailbox_snd ..)
        rw [h₂]
        refine Coordinator.setBox_of_eq fun hv => ?_
        have h₁ := (Coordinator.onMailbox_fst (fun m => m.append clause) hv).symm.trans
          (congrArg Prod.fst hc)
        exact Mailbox.append_of_error h₁
      have hq' := hsame rfl hq
      exact .fail [] hr (by simp [hb]) hq'.toSame hq'.period_eq hq'.stopped_eq (.inl hsnd)
        hq'.length_eq (.inl rfl)

theorem allowed_advancing (hr : r.control = .boundary b) (hb : b.stage = .advancing) :
    Allowed r b s.coordinator [] (b.stepAdvancing r.toPost s) := by
  have hq (pace : Pace) : r.worker.Quiet { r.worker with pace } :=
    ⟨⟨rfl, rfl, rfl, fun _ h => .inl h⟩, rfl, rfl, rfl, rfl⟩
  unfold Boundary.stepAdvancing
  dsimp only
  split
  · rename_i f pace _
    exact .fail [] hr (by simp [hb]) (hq pace).toSame rfl rfl (.inl rfl) rfl (.inl rfl)
  · rename_i candidate pace _
    split
    · rename_i f coordinator hc
      have h₂ : coordinator = _ := (congrArg Prod.snd hc).symm.trans (Coordinator.onMailbox_snd ..)
      by_cases hv : r.worker.id < s.coordinator.numWorkers
      · have h₁ := (Coordinator.onMailbox_fst (fun m => m.advance candidate) hv).symm.trans
          (congrArg Prod.fst hc)
        exact .fail [] hr (by simp [hb]) (hq pace).toSame rfl rfl
          (.inr (.inl ⟨candidate, f, hb, h₁, h₂⟩)) rfl (.inl rfl)
      · have hsnd : coordinator = s.coordinator := by
          rw [h₂]
          exact Coordinator.setBox_of_eq fun h => absurd h hv
        exact .fail [] hr (by simp [hb]) (hq pace).toSame rfl rfl (.inl hsnd) rfl (.inl rfl)
    · rename_i q coordinator hc
      have h₂ : coordinator = _ := (congrArg Prod.snd hc).symm.trans (Coordinator.onMailbox_snd ..)
      have hok := Coordinator.lt_of_onMailbox (congrArg Prod.fst hc)
      subst h₂
      exact .advance hr hb (hq pace) hok.2

theorem allowed_fetching (hr : r.control = .boundary b) {offset : Nat} {t : Tally}
    (hb : b.stage = .fetching offset t) :
    Allowed r b s.coordinator [] (Boundary.stepFetching offset t r.toPost s) := by
  unfold Boundary.stepFetching
  dsimp only
  split
  · rename_i ho
    split
    · exact .fail [] hr (by simp [hb]) (.refl _) rfl rfl (.inl rfl) rfl (.inl rfl)
    · rename_i hf
      exact .skip hr hb ho hf
    · rename_i set hf
      exact .fetch hr hb ho hf
  · rename_i ho
    exact .survey hr hb (by omega)

theorem allowed_reading (hr : r.control = .boundary b) {offset q : Nat} {t : Tally}
    (hb : b.stage = .reading offset t q) :
    Allowed r b s.coordinator (b.events r.worker s.coordinator)
      (Boundary.stepReading offset t q r.toPost s) := by
  have hstay : Step r s.coordinator []
      { r with control := .boundary { b with stage := .reading offset t q } } s.coordinator := by
    have : { r with control := .boundary { b with stage := .reading offset t q } } = r := by
      rw [← hb, ← hr]
    rw [this]
    exact .stay
  unfold Boundary.events Boundary.stepReading
  rw [hb]
  dsimp only
  cases hset : s.coordinator.set? (r.worker.neighbour offset) q with
  | none => exact hstay
  | some set =>
    rw [Option.bind_some]
    dsimp only
    cases hcs : set.clauses? with
    | none =>
      dsimp only
      split
      · rename_i hmode
        refine .passOver hr hb hmode ⟨set, hset, ?_⟩
        unfold ClauseSet.clauses? at hcs
        split at hcs
        · cases hcs
        · rwa [← Bool.not_eq_true]
      · exact hstay
    | some cs =>
      obtain ⟨n, hn⟩ : ∃ n, set.frozen? = some (cs, n) := by
        unfold ClauseSet.clauses? at hcs
        split at hcs
        · rename_i hcomp
          obtain ⟨n, hn⟩ := Option.isSome_iff_exists.1 hcomp
          exact ⟨n, by rw [ClauseSet.frozen?, hn]; simpa using hcs⟩
        · cases hcs
      have hf : s.coordinator.frozen? (r.worker.neighbour offset) q = some (cs, n) := by
        rw [Coordinator.frozen?, hset, Option.bind_some, hn]
      dsimp only
      split
      · exact .fail [.imported (r.worker.neighbour offset) q cs] hr (by simp [hb])
          ⟨rfl, rfl, rfl, fun _ h => .inl h⟩ rfl rfl (.inl rfl) rfl
          (.inr ⟨offset, t, q, cs, hb, rfl⟩)
      · exact .read hr hb hf ⟨set, hset, ‹_›⟩

theorem allowed_acknowledging (hr : r.control = .boundary b) {offset q : Nat} {t : Tally}
    (hb : b.stage = .acknowledging offset t q) :
    Allowed r b s.coordinator (b.events r.worker s.coordinator)
      (Boundary.stepAcknowledging offset t q r.toPost s) := by
  unfold Boundary.events Boundary.stepAcknowledging
  rw [hb]
  dsimp only
  rw [Coordinator.any_isCompleted]
  rcases hc : s.coordinator.acknowledge (r.worker.neighbour offset) r.worker.id q with
    ⟨f | ⟨⟩, coordinator⟩
  · exact .fail [] hr (by simp [hb]) (.refl _) rfl rfl
      (.inr (.inr ⟨offset, t, q, f, hb, by rw [hc], by rw [hc]⟩)) rfl (.inl rfl)
  · have := Step.acknowledge hr hb (c := s.coordinator) (congrArg Prod.fst hc)
    rw [hc] at this
    exact this

theorem allowed_averaging (hr : r.control = .boundary b) {t : Tally} (hb : b.stage = .averaging t) :
    Allowed r b s.coordinator [] (Boundary.stepAveraging t r.toPost s) := by
  have hq : r.worker.Quiet (r.worker.countImports t) :=
    ⟨⟨rfl, rfl, rfl, fun _ h => .inl h⟩, rfl, rfl, rfl, rfl⟩
  have hfail (f : Fault) : Step r s.coordinator ([] ++ [.broken])
      ⟨⟨r.worker.countImports t, r.engine⟩, .leaving (.broken f)⟩ s.coordinator :=
    .fail [] hr (by simp [hb]) hq.toSame rfl rfl (.inl rfl) rfl (.inl rfl)
  unfold Boundary.stepAveraging
  dsimp only
  split
  · rename_i hadaptive
    split
    · exact hfail _
    · rename_i m hm
      split
      · exact hfail _
      · rename_i sum hsum
        refine .average hr hb hq ?_
        obtain ⟨rfl, -⟩ := Word.add_eq_ok_iff.1 hsum
        obtain ⟨-, rfl⟩ := Coordinator.mailbox_eq_ok hm
        exact (if_pos hadaptive).symm
  · rename_i hfixed
    exact .average hr hb hq (if_neg hfixed).symm

theorem allowed_entering (hr : r.control = .boundary b) {length : Nat}
    (hb : b.stage = .entering length) :
    Allowed r b s.coordinator (b.events r.worker s.coordinator)
      (b.stepEntering length r.toPost s) := by
  unfold Boundary.events Boundary.stepEntering
  rw [hb]
  dsimp only
  cases hw : r.worker.enter length with
  | error f => exact .fail [] hr (by simp [hb]) (.refl _) rfl rfl (.inl rfl) rfl (.inl rfl)
  | ok w =>
    unfold Worker.enter at hw
    split at hw
    · cases hw
    · rename_i period hp
      obtain ⟨rfl, hword⟩ := Word.add_eq_ok_iff.1 hp
      cases hw
      exact .enter hr hb ⟨rfl, rfl, rfl, fun _ h => .inl h⟩ rfl hword rfl rfl rfl

theorem allowed_deciding (hr : r.control = .boundary b) (hb : b.stage = .deciding) :
    Allowed r b s.coordinator [] (Boundary.stepDeciding r.toPost s) := by
  unfold Boundary.stepDeciding
  dsimp only
  refine .decide hr hb fun htime hmemory => ?_
  rw [Limits.check_of_unlimited _ _ htime hmemory]
  cases s.coordinator.shouldTerminate r.worker.period <;> rfl

/-- The answer at the end of a boundary is passed on to the engine. -/
theorem step_answered (E : Engine σ) (s : Shared) (hr : r.control = .boundary b) {goOn : Bool}
    (hb : b.stage = .answered goOn) : r.step E s = (r.reply E (.answer goOn), s) := by
  unfold step
  rw [hr]
  simp [hb]

theorem events_answered (E : Engine σ) (s : Shared) (hr : r.control = .boundary b) {goOn : Bool}
    (hb : b.stage = .answered goOn) : r.events E s = [] := by
  unfold events
  rw [hr]
  simp [Boundary.step, Boundary.events, hb]

/-- Before that a runner takes the steps of the boundary. -/
theorem step_boundary (E : Engine σ) (s : Shared) (hr : r.control = .boundary b)
    (hb : ∀ goOn, b.stage ≠ .answered goOn) :
    r.step E s = match b.step E r.toPost s with
      | .moved stage p s => (⟨p, .boundary { b with stage }⟩, s)
      | .failed f p s => (⟨p, .leaving (.broken f)⟩, s) := by
  obtain ⟨p, control⟩ := r
  obtain rfl : control = .boundary b := hr
  obtain ⟨counters, stage⟩ := b
  cases stage with
  | answered goOn => exact absurd rfl (hb goOn)
  | _ => rfl

theorem events_boundary (E : Engine σ) (s : Shared) (hr : r.control = .boundary b) :
    r.events E s = match b.step E r.toPost s with
      | .moved .. => b.events r.worker s.coordinator
      | .failed .. => b.events r.worker s.coordinator ++ [.broken] := by
  obtain ⟨p, control⟩ := r
  obtain rfl : control = .boundary b := hr
  rfl

theorem boundary_cases (hr : r.control = .boundary b) :
    Step r s.coordinator (r.events E s) (r.step E s).1 (r.step E s).2.coordinator := by
  have hallowed (hstage : ∀ goOn, b.stage ≠ .answered goOn) :
      Allowed r b s.coordinator (b.events r.worker s.coordinator) (b.step E r.toPost s) := by
    unfold Boundary.step
    cases hb : b.stage with
    | exporting d => simpa [Boundary.events, hb] using allowed_exporting hr hb
    | advancing => simpa [Boundary.events, hb] using allowed_advancing hr hb
    | fetching offset t => simpa [Boundary.events, hb] using allowed_fetching hr hb
    | reading offset t q => exact allowed_reading hr hb
    | acknowledging offset t q => exact allowed_acknowledging hr hb
    | averaging t => simpa [Boundary.events, hb] using allowed_averaging hr hb
    | entering length => exact allowed_entering hr hb
    | deciding => simpa [Boundary.events, hb] using allowed_deciding hr hb
    | answered goOn => exact absurd hb (hstage goOn)
  cases hb : b.stage with
  | answered goOn =>
    rw [step_answered E s hr hb, events_answered E s hr hb]
    exact .reply hr hb
  | _ =>
    have h := hallowed (by simp [hb])
    rw [step_boundary E s hr (by simp [hb]), events_boundary E s hr]
    cases hp : b.step E r.toPost s <;> rw [hp] at h <;> exact h

/-- A runner whose engine searches carries out its request. -/
theorem step_searching (E : Engine σ) (s : Shared) (hr : r.control = .searching) :
    r.step E s = (r.serve E (s.times r.worker.id), s) := by rw [step, hr]

/-- A runner registers, if one more worker can be counted. -/
theorem step_ready (E : Engine σ) (hr : r.control = .ready)
    (hlive : Word.add s.coordinator.live 1 = .ok (s.coordinator.live + 1)) :
    r.step E s = ({ r with control := .searching },
      { s with coordinator :=
        { s.coordinator with live := s.coordinator.live + 1, launched := true } }) := by
  unfold step Coordinator.start
  rw [hr, hlive]
  rfl

/-- On its way out a runner closes its mailbox, -/
theorem step_closing (E : Engine σ) {verdict : Verdict} (hr : r.control = .closing verdict)
    (hid : r.worker.id < s.coordinator.numWorkers) : r.step E s =
      ({ r with control := .leaving (.concluded verdict) },
        { s with
          coordinator := s.coordinator.setBox r.worker.id
            ((s.coordinator.box r.worker.id).close r.worker.periodLength) }) := by
  unfold step
  rw [hr]
  dsimp only
  rw [Coordinator.close_eq hid]
  rfl

/-- makes sure that it is closed, -/
theorem step_leaving (E : Engine σ) {ending : Ending} (hr : r.control = .leaving ending)
    (hid : r.worker.id < s.coordinator.numWorkers) : r.step E s =
      ({ r with control := .signingOff ending },
        { s with
          coordinator := s.coordinator.setBox r.worker.id
            ((s.coordinator.box r.worker.id).close s.coordinator.periodLength) }) := by
  unfold step
  rw [hr]
  dsimp only
  rw [Coordinator.close_eq hid]

/-- and signs off, if it is counted. -/
theorem step_signingOff (E : Engine σ) {ending : Ending} (hr : r.control = .signingOff ending)
    (hlive : 0 < s.coordinator.live) : r.step E s =
      ({ r with control := afterSignOff ending (.ok ()) },
        { s with coordinator := { s.coordinator with live := s.coordinator.live - 1 } }) := by
  unfold step Coordinator.stop
  rw [hr, if_neg (Nat.ne_of_gt hlive)]

theorem events_eq_nil (hsearching : r.control ≠ .searching)
    (hboundary : ∀ b, r.control ≠ .boundary b) : r.events E s = [] := by
  unfold events
  split
  · exact absurd ‹_› hsearching
  · exact absurd ‹_› (hboundary _)
  · rfl

/-- Every step of a runner is one of those listed. -/
theorem step_cases (E : Engine σ) (r : Runner σ) (s : Shared)
    (hid : r.worker.id < s.coordinator.numWorkers) :
    Step r s.coordinator (r.events E s) (r.step E s).1 (r.step E s).2.coordinator := by
  cases hr : r.control with
  | boundary b => exact boundary_cases hr
  | searching =>
    rw [step_searching E s hr]
    exact serve_cases E r s _ hr
  | ready =>
    rw [events_eq_nil (by simp [hr]) (by simp [hr])]
    unfold step Coordinator.start
    rw [hr]
    cases Word.add s.coordinator.live 1 with
    | error f => exact .give (.inl hr) (.refl _)
    | ok live => exact .start hr ⟨rfl, rfl, rfl, rfl⟩
  | reporting verdict =>
    rw [events_eq_nil (by simp [hr]) (by simp [hr])]
    unfold step Coordinator.report
    rw [hr]
    dsimp only
    cases hbest : Report.displaces ⟨verdict, ⟨r.worker.period, r.worker.id⟩⟩
        s.coordinator.winner? with
    | error f => exact .give (.inr (.inr ⟨verdict, f, hr, hbest⟩)) (.refl _)
    | ok best =>
      have := Step.report hr hbest
      cases best <;> exact this
  | closing verdict =>
    rw [events_eq_nil (by simp [hr]) (by simp [hr])]
    rw [step_closing E hr hid]
    exact .close hr
  | leaving ending =>
    rw [events_eq_nil (by simp [hr]) (by simp [hr])]
    rw [step_leaving E hr hid]
    exact .leave hr
  | signingOff ending =>
    rw [events_eq_nil (by simp [hr]) (by simp [hr])]
    unfold step Coordinator.stop
    rw [hr]
    dsimp only
    split
    · exact .signOff hr ⟨rfl, rfl, rfl, rfl⟩ (.inl ⟨_, rfl⟩)
    · cases ending with
      | broken f => exact .signOff hr ⟨rfl, rfl, rfl, rfl⟩ (.inl ⟨f, rfl⟩)
      | concluded verdict => exact .signOff hr ⟨rfl, rfl, rfl, rfl⟩ (.inr ⟨verdict, rfl, rfl⟩)
  | handingIn verdict =>
    rw [events_eq_nil (by simp [hr]) (by simp [hr])]
    unfold step finalStatistics
    rw [hr]
    dsimp only
    cases E.statistics r.engine with
    | error f => exact .handIn hr (.inl ⟨f, rfl⟩)
    | ok counters =>
      dsimp only
      cases E.exportThreshold r.engine with
      | error f => exact .handIn hr (.inl ⟨f, rfl⟩)
      | ok threshold => exact .handIn hr (.inr ⟨_, rfl, rfl⟩)
  | finished statistics =>
    have hstep : r.step E s = (r, s) := by rw [step, hr]
    rw [events_eq_nil (by simp [hr]) (by simp [hr]), hstep]
    exact .stay
  | panicked f =>
    have hstep : r.step E s = (r, s) := by rw [step, hr]
    rw [events_eq_nil (by simp [hr]) (by simp [hr]), hstep]
    exact .stay

/-- No step changes who a worker is. -/
theorem Step.same {r r' : Runner σ} {c c' : Coordinator} {events : List Event}
    (h : Step r c events r' c') : r.worker.Same r'.worker := by
  cases h with
  | serve _ hq => exact hq.toSame
  | sort _ _ hq => exact hq.toSame
  | publish _ _ hq => exact hq.toSame
  | advance _ _ hq => exact hq.toSame
  | average _ _ hq => exact hq.toSame
  | enter _ _ hw => exact hw
  | fail _ _ _ hw => exact hw
  | give _ hq => exact hq.toSame
  | _ => exact ⟨rfl, rfl, rfl, fun _ h => .inl h⟩

theorem Step.period_lt {r r' : Runner σ} {c c' : Coordinator} {events : List Event}
    (h : Step r c events r' c') (hlt : r.worker.period < Word.bound) :
    r'.worker.period < Word.bound := by
  cases h with
  | serve _ hq => rwa [hq.period_eq]
  | sort _ _ hq => rwa [hq.period_eq]
  | publish _ _ hq => rwa [hq.period_eq]
  | advance _ _ hq => rwa [hq.period_eq]
  | average _ _ hq => rwa [hq.period_eq]
  | enter _ _ _ _ hword => exact hword
  | fail _ _ _ _ hperiod => rwa [hperiod]
  | give _ hq => rwa [hq.period_eq]
  | _ => exact hlt

/-- The length of a period is that with which it was entered. -/
theorem Step.length_cases {r r' : Runner σ} {c c' : Coordinator} {events : List Event}
    (h : Step r c events r' c') :
    r'.worker.period = r.worker.period ∧ r'.worker.periodLength = r.worker.periodLength ∨
      ∃ b length, r.control = .boundary b ∧ b.stage = .entering length ∧
        r'.worker.period = r.worker.period + 1 ∧ r'.worker.periodLength = length := by
  cases h with
  | serve _ hq => exact .inl ⟨hq.period_eq, hq.length_eq⟩
  | sort _ _ hq => exact .inl ⟨hq.period_eq, hq.length_eq⟩
  | publish _ _ hq => exact .inl ⟨hq.period_eq, hq.length_eq⟩
  | advance _ _ hq => exact .inl ⟨hq.period_eq, hq.length_eq⟩
  | average _ _ hq => exact .inl ⟨hq.period_eq, hq.length_eq⟩
  | enter hr hb _ hperiod _ _ _ hlength => exact .inr ⟨_, _, hr, hb, hperiod, hlength⟩
  | fail _ _ _ _ hperiod _ _ hlength => exact .inl ⟨hperiod, hlength⟩
  | give _ hq => exact .inl ⟨hq.period_eq, hq.length_eq⟩
  | _ => exact .inl ⟨rfl, rfl⟩

/-- A worker is about to decide when it has entered a period. -/
theorem Step.deciding_cases {r r' : Runner σ} {c c' : Coordinator} {events : List Event}
    (h : Step r c events r' c') {b : Boundary} (hr : r'.control = .boundary b)
    (hb : b.stage = .deciding) :
    (r' = r ∧ c' = c ∧ events = []) ∨ r'.worker.period = r.worker.period + 1 := by
  cases h with
  | stay => exact .inl ⟨rfl, rfl, rfl⟩
  | enter _ _ _ hperiod => exact .inr hperiod
  | sort _ _ _ hstage =>
    cases hr
    rcases hstage with rfl | ⟨d, rfl⟩ <;> cases hb
  | advance =>
    cases hr
    dsimp only at hb
    split at hb <;> cases hb
  | take _ hk => rcases hk with rfl | ⟨f, rfl⟩ <;> cases hr
  | signOff _ _ hk => rcases hk with ⟨f, rfl⟩ | ⟨verdict, -, rfl⟩ <;> cases hr
  | handIn _ hk => rcases hk with ⟨f, rfl⟩ | ⟨stats, -, rfl⟩ <;> cases hr
  | _ => cases hr <;> cases hb

/-! ## A turn is a step, but for the stopwatch -/

@[simp] theorem runner_turn (E : Engine σ) (r : Runner σ) (s : Shared) :
    (r.turn E s).1 = (r.step E s).1 := rfl

@[simp] theorem coordinator_turn (E : Engine σ) (r : Runner σ) (s : Shared) :
    (r.turn E s).2.coordinator = (r.step E s).2.coordinator := rfl

@[simp] theorem channel_turn (E : Engine σ) (r : Runner σ) (s : Shared) :
    (r.turn E s).2.channel = (r.step E s).2.channel := rfl

end Runner

namespace Exchange

variable {σ : Type} (E : Engine σ) {x : Exchange σ} {i : Nat}

theorem turn_of_none (h : x.runners[i]? = none) : x.turn E i = x := by rw [turn, h]

theorem turn_of_some {r : Runner σ} (h : x.runners[i]? = some r) :
    x.turn E i = ⟨(r.turn E x.shared).2, x.runners.setIfInBounds i (r.step E x.shared).1⟩ := by
  rw [turn, h]
  rfl

theorem runners_turn {r : Runner σ} (h : x.runners[i]? = some r) (j : Nat) :
    (x.turn E i).runners[j]? = if j = i then some (r.step E x.shared).1 else x.runners[j]? := by
  have hi := (Array.getElem?_eq_some_iff.1 h).1
  rw [turn_of_some E h, Array.getElem?_setIfInBounds]
  by_cases hij : j = i
  · subst hij
    simp [hi]
  · rw [if_neg (Ne.symm hij), if_neg hij]

theorem events_of_some {r : Runner σ} (h : x.runners[i]? = some r) :
    x.events E i = r.events E x.shared := by rw [events, h]

theorem events_of_none (h : x.runners[i]? = none) : x.events E i = [] := by rw [events, h]

end Exchange

end ClauseExchange
