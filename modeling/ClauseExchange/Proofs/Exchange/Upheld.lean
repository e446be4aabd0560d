import ClauseExchange.Proofs.Exchange.Delivery
import ClauseExchange.Proofs.Exchange.Driven
import ClauseExchange.Proofs.Exchange.Exports

/-!
# Properties that engines uphold

An engine upholds a property of clauses if it offers only clauses with this property, as long as it
is given no others (`Engine.Upholds`). The exchange makes no clauses of its own: between engines
that uphold a property, whatever is staged, produced or pending has it.

* `Runner.step_upholds` says that every step of a worker keeps to the property, if all that has been
  produced has it.
* `Exchange.Fresh.upholds_follow` says that every exchange does, under every schedule.
-/

namespace ClauseExchange

/-- All clauses of a batch have a property. -/
structure Batch.All (P : Clause → Prop) (b : Batch) : Prop where
  units : ∀ d ∈ b.units, P d
  clauses : ∀ d ∈ b.clauses, P d

/-- All clauses that a reply shows have a property. -/
def Reply.All (P : Clause → Prop) : Reply → Prop
  | .seen view => view.pending.All P
  | .taken batch => batch.All P
  | .done | .answer _ | .applied _ => True

variable {σ : Type}

/-- An engine in a state with `I` offers only clauses with `P`, and it comes to no state without `I`
as long as all clauses that it is given have `P`. -/
structure Engine.Upholds (E : Engine σ) (P : Clause → Prop) (I : σ → Prop) : Prop where
  offers : ∀ e d quality, I e → E.request e = .exportCandidate d quality → P d
  resume : ∀ e reply, I e → reply.All P → I (E.resume e reply)
  apply : ∀ e batch, I e → batch.All P → I (E.apply e batch).2
  advised : ∀ e advice, I e → I (E.advised e advice)

/-- What a worker holds has a property, and its engine is in a state that upholds it. -/
structure Post.Upholds (P : Clause → Prop) (I : σ → Prop) (p : Post σ) : Prop where
  engine : I p.engine
  staged : ∀ d ∈ p.worker.outbox.staged, P d.2
  pending : p.worker.pending.All P

/-- All that has been produced has a property. -/
def Coordinator.Upholds (P : Clause → Prop) (c : Coordinator) : Prop :=
  ∀ v < c.numWorkers, ∀ d ∈ (c.box v).allClauses, P d

/-- All clauses of an exchange have a property, and its engines uphold it. -/
structure Exchange.Upholds (P : Clause → Prop) (I : σ → Prop) (x : Exchange σ) : Prop where
  runner : ∀ (i : Nat) (r : Runner σ), x.runners[i]? = some r → r.toPost.Upholds P I
  produced : x.shared.coordinator.Upholds P

variable {E : Engine σ} {P : Clause → Prop} {I : σ → Prop}

namespace Batch

theorem all_empty : Batch.All P {} where
  units d hd := absurd hd (Array.not_mem_empty d)
  clauses d hd := absurd hd (Array.not_mem_empty d)

theorem All.append {b : Batch} (h : b.All P) {ds : List Clause} (hds : ∀ d ∈ ds, P d) :
    (b.append ds).All P where
  units d hd := by
    rw [← Array.mem_toList_iff, toList_units_append, List.mem_append, List.mem_filter] at hd
    rcases hd with hd | ⟨hd, -⟩
    · exact h.units d (Array.mem_toList_iff.1 hd)
    · exact hds d hd
  clauses d hd := by
    rw [← Array.mem_toList_iff, toList_clauses_append, List.mem_append, List.mem_filter] at hd
    rcases hd with hd | ⟨hd, -⟩
    · exact h.clauses d (Array.mem_toList_iff.1 hd)
    · exact hds d hd

end Batch

/-- The clauses of every set have been produced, -/
theorem Coordinator.Upholds.of_set? {c : Coordinator} (h : c.Upholds P) {v q : Nat}
    {set : ClauseSet} (hset : c.set? v q = some set) : ∀ d ∈ set.appended.toList, P d := by
  have hv : v < c.numWorkers := by
    by_contra hnot
    rw [Coordinator.set?, Array.getElem?_eq_none (Nat.le_of_not_lt hnot)] at hset
    cases hset
  rw [Coordinator.set?_eq hv] at hset
  exact fun d hd => h v hv d (Mailbox.mem_allClauses_of_set? hset hd)

/-- and so has what a worker reads in it. -/
theorem Coordinator.Upholds.of_clauses? {c : Coordinator} (h : c.Upholds P) {v q : Nat}
    {set : ClauseSet} (hset : c.set? v q = some set) {ds : List Clause}
    (hds : set.clauses? = some ds) : ∀ d ∈ ds, P d := by
  unfold ClauseSet.clauses? at hds
  split at hds
  · obtain rfl := Option.some.inj hds
    exact h.of_set? hset
  · cases hds

/-! ## One step -/

namespace Post.Upholds

variable {p : Post σ} {s : Shared}

/-- Of a worker only its outbox and what is pending count. -/
theorem of_worker (h : p.Upholds P I) {w : Worker} (houtbox : w.outbox = p.worker.outbox)
    (hpending : w.pending = p.worker.pending) : Post.Upholds P I ⟨w, p.engine⟩ where
  engine := h.engine
  staged := by
    rw [houtbox]
    exact h.staged
  pending := by
    rw [hpending]
    exact h.pending

theorem advised (h : p.Upholds P I) (hE : E.Upholds P I) (conflicts : Nat) (d : Drain) :
    (p.regulate E conflicts d).2.Upholds P I where
  engine := by
    obtain ⟨advice, hadvised⟩ := p.exists_advised E conflicts d
    rw [hadvised]
    exact hE.advised p.engine advice h.engine
  staged := by
    rw [(p.sameExports_regulate E conflicts d).outbox_eq]
    exact h.staged
  pending := by
    rw [(p.quiet_regulate E conflicts d).pending_eq]
    exact h.pending

/-- A boundary moves clauses about: from the outbox into the worker's set, and from the sets of
others to those that wait for the engine. -/
theorem boundary_step (h : p.Upholds P I) (hE : E.Upholds P I) (hc : s.coordinator.Upholds P)
    (b : Boundary) : (b.step E p s).post.Upholds P I := by
  unfold Boundary.step
  cases b.stage with
  | exporting d =>
    have hpicked {o : Outbox} (ho : ∀ d ∈ o.staged, d ∈ p.worker.outbox.staged) :
        Post.Upholds P I ⟨{ p.worker with outbox := o }, p.engine⟩ :=
      ⟨h.engine, fun d hd => h.staged d (ho d hd), h.pending⟩
    dsimp only [Boundary.stepExporting]
    split
    · rename_i outbox hpick
      have hadvised := (hpicked fun d hd => by
        rwa [Outbox.staged_of_pick_over hpick] at hd).advised hE b.counters.conflicts d
      split <;> rename_i heq <;> rw [heq] at hadvised <;> exact hadvised
    · rename_i outbox hpick
      obtain ⟨quality, hstaged⟩ := Outbox.staged_of_pick_oversized hpick
      refine hpicked fun d hd => ?_
      rw [hstaged]
      exact List.mem_cons_of_mem _ hd
    · rename_i clause outbox hpick
      obtain ⟨quality, hstaged⟩ := Outbox.staged_of_pick_publish hpick
      have hrest : ∀ d ∈ outbox.staged, d ∈ p.worker.outbox.staged := fun d hd => by
        rw [hstaged]
        exact List.mem_cons_of_mem _ hd
      split
      · exact hpicked hrest
      · exact hpicked hrest
  | advancing =>
    dsimp only [Boundary.stepAdvancing]
    split
    · exact h.of_worker rfl rfl
    · split <;> exact h.of_worker rfl rfl
  | fetching offset t =>
    dsimp only [Boundary.stepFetching]
    split
    · split <;> exact h
    · exact h
  | reading offset t q =>
    dsimp only [Boundary.stepReading]
    split
    · exact h
    · rename_i set hset
      split
      · exact h
      · rename_i ds hds
        have hread : Post.Upholds P I
            ⟨{ p.worker with pending := p.worker.pending.append ds }, p.engine⟩ :=
          ⟨h.engine, h.staged, h.pending.append (hc.of_clauses? hset hds)⟩
        split <;> exact hread
  | acknowledging offset t q =>
    dsimp only [Boundary.stepAcknowledging]
    split <;> exact h
  | averaging t =>
    dsimp only [Boundary.stepAveraging]
    split
    · split
      · exact h.of_worker rfl rfl
      · split <;> exact h.of_worker rfl rfl
    · exact h.of_worker rfl rfl
  | entering length =>
    dsimp only [Boundary.stepEntering]
    split
    · exact h
    · rename_i w hw
      rw [Worker.enter_eq_ok hw]
      exact h.of_worker rfl rfl
  | deciding => exact h.of_worker rfl rfl
  | answered goOn => exact h

end Post.Upholds

namespace Runner

variable {r : Runner σ} {s : Shared}

/-- An engine's request stages what it offers, and gives it what is pending. -/
theorem serve_upholds (h : r.toPost.Upholds P I) (hE : E.Upholds P I) (times : PhaseTimes) :
    (r.serve E times).toPost.Upholds P I := by
  unfold serve
  cases hreq : E.request r.engine with
  | observe => exact ⟨hE.resume _ _ h.engine h.pending, h.staged, h.pending⟩
  | addWork units => exact ⟨hE.resume _ _ h.engine trivial, h.staged, h.pending⟩
  | exportCandidate d quality =>
    refine ⟨hE.resume _ _ h.engine trivial, fun d' hd' => ?_, ?_⟩
    · change d' ∈ (r.worker.exportCandidate d quality).outbox.staged at hd'
      unfold Worker.exportCandidate at hd'
      split at hd'
      · exact h.staged d' hd'
      · rcases (Outbox.mem_staged_add _ _ _ _).1 hd' with rfl | hd'
        · exact hE.offers _ _ _ h.engine hreq
        · exact h.staged d' hd'
    · show (r.worker.exportCandidate d quality).pending.All P
      rw [(r.worker.quiet_exportCandidate d quality).pending_eq]
      exact h.pending
  | checkPeriod =>
    dsimp only
    split <;> exact h
  | shouldApply =>
    have hasked : Post.Upholds P I ⟨r.worker.shouldApply.2, r.engine⟩ :=
      h.of_worker r.worker.sameExports_shouldApply.outbox_eq r.worker.quiet_shouldApply.pending_eq
    dsimp only
    split <;> rename_i heq <;> rw [heq] at hasked
    · exact hasked
    · exact ⟨hE.resume _ _ h.engine trivial, hasked.staged, hasked.pending⟩
  | takeImported => exact ⟨hE.resume _ _ h.engine h.pending, h.staged, Batch.all_empty⟩
  | applyImported =>
    have happlied : (r.toPost.applyImported E).2.Upholds P I := by
      unfold Post.applyImported Worker.takeImported
      dsimp only
      split
      · exact ⟨h.engine, h.staged, Batch.all_empty⟩
      · exact ⟨hE.apply _ _ h.engine h.pending, h.staged, Batch.all_empty⟩
    dsimp only
    split <;> rename_i heq <;> rw [heq] at happlied
    · exact happlied
    · exact ⟨hE.resume _ _ happlied.engine trivial, happlied.staged, happlied.pending⟩
  | conclude verdict => exact h
  | fail f => exact h

theorem step_upholds (h : r.toPost.Upholds P I) (hE : E.Upholds P I)
    (hc : s.coordinator.Upholds P) : (r.step E s).1.toPost.Upholds P I := by
  cases hr : r.control with
  | searching =>
    rw [step_searching E s hr]
    exact serve_upholds h hE _
  | boundary b =>
    by_cases hanswered : ∃ goOn, b.stage = .answered goOn
    · obtain ⟨goOn, hb⟩ := hanswered
      rw [step_answered E s hr hb]
      exact ⟨hE.resume _ _ h.engine trivial, h.staged, h.pending⟩
    · push Not at hanswered
      have hstep := h.boundary_step hE hc b
      rw [step_boundary E s hr hanswered]
      cases hp : b.step E r.toPost s <;> rw [hp] at hstep <;> exact hstep
  | ready | reporting | closing =>
    unfold step settle
    rw [hr]
    dsimp only
    split <;> exact h
  | leaving | signingOff | finished | panicked =>
    unfold step
    rw [hr]
    exact h
  | handingIn verdict =>
    unfold step
    rw [hr]
    dsimp only
    split <;> exact h

end Runner

/-! ## Whole runs -/

namespace Exchange

variable {config : Config} {x : Exchange σ}

theorem Fresh.upholds (h : x.Fresh config)
    (hengines : ∀ (i : Nat) (r : Runner σ), x.runners[i]? = some r → I r.engine) :
    x.Upholds P I where
  runner i r hr := by
    refine ⟨hengines i r hr, fun d hd => ?_, ?_⟩
    · rw [h.worker hr] at hd
      simp [Outbox.staged, Groups.staged] at hd
    · rw [h.worker hr]
      exact Batch.all_empty
  produced v hv d hd := by
    rw [h.numWorkers_eq] at hv
    rw [h.box_eq v hv] at hd
    simp [Mailbox.allClauses, Mailbox.contents, Mailbox.fresh, ClauseSet.content,
      ClauseSet.opened] at hd

theorem Upholds.turn (h : x.Upholds P I) (hx : x.Standing config) (hE : E.Upholds P I) (i : Nat) :
    (x.turn E i).Upholds P I := by
  rcases hx.turn_cases E i with ⟨heq, -⟩ | ⟨r, r', hr, hstep, heff, hrunners⟩
  · rw [heq]
    exact h
  · have hid : r.worker.id < x.shared.coordinator.numWorkers := by
      rw [(hx.runner i r hr).id_eq]
      exact hx.lt_mailboxes (hx.lt_numWorkers hr)
    refine ⟨fun j q hq => ?_, fun v hv d hd => ?_⟩
    · rw [runners_turn E hr] at hq
      split at hq
      · obtain rfl := Option.some.inj hq
        exact Runner.step_upholds (h.runner i r hr) hE h.produced
      · exact h.runner j q hq
    · rw [heff.numWorkers_eq] at hv
      rcases hstep.mem_allClauses hid hv hd with hd | ⟨quality, hstaged⟩
      · exact h.produced v hv d hd
      · exact (h.runner i r hr).staged _ hstaged

/-- Between engines that uphold a property an exchange upholds it, under every schedule. -/
theorem Fresh.upholds_follow (h : x.Fresh config) (hE : E.Upholds P I)
    (hengines : ∀ (i : Nat) (r : Runner σ), x.runners[i]? = some r → I r.engine)
    (schedule : List Nat) : (x.follow E schedule).Upholds P I :=
  h.standing.invariant E (h.upholds hengines) (fun _ i hy hupholds => hupholds.turn hy hE i) schedule

end Exchange

end ClauseExchange
