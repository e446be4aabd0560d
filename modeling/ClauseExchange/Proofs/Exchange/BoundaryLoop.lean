import ClauseExchange.Engine.Scripted
import ClauseExchange.Proofs.Exchange.Alike
import ClauseExchange.Proofs.Exchange.Clock
import Mathlib.Data.Nat.Find

/-!
# The loop at the boundary

An engine checks as long as it is at the boundary. Each check that goes on uses up the work of one
period, and within a check every step but one that waits comes closer to its end: a staged clause is
picked, a set is fetched, read or acknowledged, or the next worker or the next stage is reached.
`Stage.remaining` bounds the number of these steps.

* `Runner.nearer_step` says that every step in the loop gets the worker nearer to its end.
* `Exchange.Fresh.nearer_follow` adds this up along a schedule.
* `Portfolio.logical_clock` puts the account of the clock and the bound on the loop together.
-/

namespace ClauseExchange

/-! ## The steps of a boundary -/

namespace Worker

/-- The number of sets of the worker `offset` places further on that are due and not read. -/
def unread (w : Worker) (c : Coordinator) (offset : Nat) : Nat :=
  w.importPeriod c.margin + 1 - (c.box (w.neighbour offset)).next w.id

/-- A bound on the number of steps in which `n` other workers are gone through: of each, every set
that is due is fetched, read and acknowledged. -/
def sweep (w : Worker) (c : Coordinator) (n : Nat) : Nat :=
  n * (3 * (w.importPeriod c.margin + 1) + 1)

theorem sweep_succ (w : Worker) (c : Coordinator) (n : Nat) :
    w.sweep c (n + 1) = w.sweep c n + 3 * (w.importPeriod c.margin + 1) + 1 := by
  rw [sweep, sweep, Nat.succ_mul, Nat.add_assoc]

theorem unread_le (w : Worker) (c : Coordinator) (offset : Nat) :
    w.unread c offset ≤ w.importPeriod c.margin + 1 := Nat.sub_le _ _

end Worker

/-- A bound on the number of steps from a stage of a boundary to its end. -/
def Stage.remaining (c : Coordinator) (w : Worker) : Stage → Nat
  | .exporting _ => w.outbox.groups.size + w.sweep c (w.numWorkers - 1) + 7
  | .advancing => w.sweep c (w.numWorkers - 1) + 6
  | .fetching offset _ =>
    if offset < w.numWorkers then
      3 * w.unread c offset + w.sweep c (w.numWorkers - 1 - offset) + 6
    else 5
  | .reading offset _ _ => 3 * w.unread c offset + w.sweep c (w.numWorkers - 1 - offset) + 5
  | .acknowledging offset _ _ => 3 * w.unread c offset + w.sweep c (w.numWorkers - 1 - offset) + 4
  | .averaging _ => 4
  | .entering _ => 3
  | .deciding => 2
  | .answered _ => 1

/-- Turning to another worker, at most all its sets are due. -/
theorem Stage.remaining_fetching_le (c : Coordinator) (w : Worker) (offset : Nat) (t : Tally) :
    (fetching offset t).remaining c w ≤ w.sweep c (w.numWorkers - offset) + 5 := by
  show (if offset < w.numWorkers then
    3 * w.unread c offset + w.sweep c (w.numWorkers - 1 - offset) + 6 else 5) ≤ _
  split
  · rename_i hlt
    have hle := w.unread_le c offset
    rw [show w.numWorkers - offset = w.numWorkers - 1 - offset + 1 by omega, w.sweep_succ]
    omega
  · omega

/-- What a stage sees of a worker beyond its outbox. -/
theorem Worker.sweep_congr {w w' : Worker} {c c' : Coordinator} (hperiod : w'.period = w.period)
    (hmargin : c'.margin = c.margin) (n : Nat) : w'.sweep c' n = w.sweep c n := by
  rw [sweep, sweep, importPeriod, importPeriod, hperiod, hmargin]

namespace Groups

theorem size_trim (gs : Groups) : gs.trim.size = gs.size := by
  induction gs with
  | nil => rfl
  | cons g gs ih =>
    unfold trim at ih ⊢
    rw [List.dropWhile_cons]
    split
    · rename_i hempty
      rw [ih]
      simp only [beq_iff_eq] at hempty
      simp [size, hempty]
    · rfl

end Groups

variable {σ : Type}

/-- A step gets a boundary on: the bound on the steps to its end falls, and the outbox does not
grow. -/
structure Boundary.Closer (c : Coordinator) (w : Worker) (stage : Stage) (c' : Coordinator)
    (w' : Worker) (stage' : Stage) : Prop where
  isDue : stage'.isDue = true
  size_le : w'.outbox.groups.size ≤ w.outbox.groups.size
  remaining_lt : stage'.remaining c' w' < stage.remaining c w

namespace Boundary

variable {E : Engine σ} {b : Boundary} {p p' : Post σ} {s s' : Shared} {stage' : Stage}

theorem outbox_regulate (E : Engine σ) (p : Post σ) (conflicts : Nat) (d : Drain) :
    (p.regulate E conflicts d).2.worker.outbox = p.worker.outbox := by
  unfold Post.regulate
  dsimp only
  rw [Post.worker_follow]
  rfl

theorem closer_exporting {d : Drain}
    (h : b.stepExporting E d p s = .moved stage' p' s') :
    Closer s.coordinator p.worker (.exporting d) s'.coordinator p'.worker stage' := by
  unfold stepExporting at h
  dsimp only at h
  split at h
  · rename_i outbox hpick
    have hsize : outbox.groups.size ≤ p.worker.outbox.groups.size := by
      rcases Outbox.of_pick_over hpick with ⟨-, rfl⟩ | ⟨c, groups, -, -, rfl⟩
      · exact Nat.zero_le _
      · exact (Groups.size_trim _).le
    have hq := Post.quiet_regulate E ⟨{ p.worker with outbox }, p.engine⟩ b.counters.conflicts d
    have hout := outbox_regulate E ⟨{ p.worker with outbox }, p.engine⟩ b.counters.conflicts d
    split at h
    · rename_i p₁ hp
      cases h
      rw [hp] at hq hout
      refine ⟨rfl, by rw [hout]; exact hsize, ?_⟩
      show p'.worker.sweep s.coordinator (p'.worker.numWorkers - 1) + 6 <
        p.worker.outbox.groups.size + p.worker.sweep s.coordinator (p.worker.numWorkers - 1) + 7
      have hnum : p'.worker.numWorkers = p.worker.numWorkers := hq.numWorkers_eq
      rw [hnum, Worker.sweep_congr (w := p.worker) hq.period_eq rfl]
      omega
    · cases h
  · rename_i outbox hpick
    have hsize := Outbox.size_of_pick_oversized hpick
    cases h
    refine ⟨rfl, hsize.le, ?_⟩
    show outbox.groups.size + p.worker.sweep s.coordinator (p.worker.numWorkers - 1) + 7 <
      p.worker.outbox.groups.size + p.worker.sweep s.coordinator (p.worker.numWorkers - 1) + 7
    omega
  · rename_i c outbox hpick
    have hsize := Outbox.size_of_pick_publish hpick
    split at h
    · rename_i coordinator hc
      have hcoord : coordinator = _ :=
        (congrArg Prod.snd hc).symm.trans (Coordinator.onMailbox_snd ..)
      cases h
      refine ⟨rfl, hsize.le, ?_⟩
      show outbox.groups.size + p.worker.sweep coordinator (p.worker.numWorkers - 1) + 7 <
        p.worker.outbox.groups.size + p.worker.sweep s.coordinator (p.worker.numWorkers - 1) + 7
      rw [Worker.sweep_congr (w := p.worker) (c := s.coordinator) rfl (by rw [hcoord]; rfl)]
      omega
    · cases h

theorem closer_advancing (h : b.stepAdvancing p s = .moved stage' p' s') :
    Closer s.coordinator p.worker .advancing s'.coordinator p'.worker stage' := by
  unfold stepAdvancing at h
  dsimp only at h
  split at h
  · cases h
  · split at h
    · cases h
    · rename_i candidate pace _ _ q coordinator hc
      have hcoord : coordinator = _ :=
        (congrArg Prod.snd hc).symm.trans (Coordinator.onMailbox_snd ..)
      have hmargin : coordinator.margin = s.coordinator.margin := by
        rw [hcoord]
        rfl
      cases h
      refine ⟨by split <;> rfl, Nat.le_refl _, ?_⟩
      show Stage.remaining coordinator { p.worker with pace } _ < p.worker.sweep _ _ + 6
      split
      · show 3 < _
        omega
      · have hle : (Stage.fetching 1 {}).remaining coordinator { p.worker with pace } ≤
            p.worker.sweep coordinator (p.worker.numWorkers - 1) + 5 :=
          Stage.remaining_fetching_le coordinator { p.worker with pace } 1 {}
        rw [Worker.sweep_congr (w := p.worker) rfl hmargin] at hle
        exact Nat.lt_succ_of_le hle

theorem closer_fetching {offset : Nat} {t : Tally}
    (h : stepFetching offset t p s = .moved stage' p' s') :
    Closer s.coordinator p.worker (.fetching offset t) s'.coordinator p'.worker stage' := by
  unfold stepFetching at h
  dsimp only at h
  split at h
  · rename_i hlt
    have hnow : (Stage.fetching offset t).remaining s.coordinator p.worker =
        3 * p.worker.unread s.coordinator offset +
          p.worker.sweep s.coordinator (p.worker.numWorkers - 1 - offset) + 6 := if_pos hlt
    split at h
    · cases h
    · cases h
      refine ⟨rfl, Nat.le_refl _, ?_⟩
      have hle := Stage.remaining_fetching_le s.coordinator p.worker (offset + 1) t
      rw [show p.worker.numWorkers - (offset + 1) = p.worker.numWorkers - 1 - offset by omega] at hle
      omega
    · cases h
      refine ⟨rfl, Nat.le_refl _, ?_⟩
      rw [hnow]
      exact Nat.lt_succ_self _
  · rename_i hge
    cases h
    refine ⟨rfl, Nat.le_refl _, ?_⟩
    show 4 < if _ then _ else 5
    rw [if_neg hge]
    exact Nat.lt_succ_self 4

theorem closer_averaging {t : Tally} (h : stepAveraging t p s = .moved stage' p' s') :
    Closer s.coordinator p.worker (.averaging t) s'.coordinator p'.worker stage' := by
  unfold stepAveraging at h
  dsimp only at h
  split at h
  · split at h
    · cases h
    · split at h
      · cases h
      · cases h
        exact ⟨rfl, Nat.le_refl _, Nat.lt_succ_self 3⟩
  · cases h
    exact ⟨rfl, Nat.le_refl _, Nat.lt_succ_self 3⟩

end Boundary

/-- A set that is held is due and not read. -/
theorem Coordinator.Holds.unread_pos {c : Coordinator} {w : Worker} {offset q : Nat}
    (h : c.Holds w offset q) : 1 ≤ w.unread c offset := by
  have hle := h.period_le
  rw [Worker.unread, h.next_eq]
  omega

namespace Boundary

variable {E : Engine σ} {b : Boundary} {p p' : Post σ} {s s' : Shared} {stage' : Stage}
  {offset q : Nat} {t : Tally}

theorem closer_reading (hholds : s.coordinator.Holds p.worker offset q)
    (hv : p.worker.neighbour offset < s.coordinator.numWorkers)
    (hwaits : isWaiting ⟨b.counters, .reading offset t q⟩ p.worker s.coordinator = false)
    (h : stepReading offset t q p s = .moved stage' p' s') :
    Closer s.coordinator p.worker (.reading offset t q) s'.coordinator p'.worker stage' := by
  have hpos := hholds.unread_pos
  unfold isWaiting at hwaits
  unfold stepReading at h
  dsimp only at h hwaits
  split at h
  · rename_i hnone
    have hsome := Mailbox.set?_isSome_iff.2 hholds.past_le
    rw [← Coordinator.set?_eq hv, hnone] at hsome
    cases hsome
  · rename_i set hset
    rw [hset, Option.any_some] at hwaits
    split at h
    · rename_i hopen
      have hcomp : set.isCompleted = false := by
        unfold ClauseSet.clauses? at hopen
        split at hopen
        · cases hopen
        · rwa [← Bool.not_eq_true]
      rw [hcomp, Bool.not_false, Bool.and_true, Bool.not_eq_false'] at hwaits
      rw [if_pos hwaits] at h
      cases h
      refine ⟨rfl, Nat.le_refl _, ?_⟩
      have hle := Stage.remaining_fetching_le s.coordinator p.worker (offset + 1) t
      rw [show p.worker.numWorkers - (offset + 1) = p.worker.numWorkers - 1 - offset by omega] at hle
      show _ < 3 * p.worker.unread s.coordinator offset + _ + 5
      omega
    · split at h
      · cases h
      · cases h
        exact ⟨rfl, Nat.le_refl _, Nat.lt_succ_self _⟩

theorem closer_acknowledging (hid : p.worker.id < s.coordinator.numWorkers)
    (hlogs : s.coordinator.AllLogs) (hw : p.worker.numWorkers = s.coordinator.numWorkers)
    (hholds : s.coordinator.Holds p.worker offset q)
    (h : stepAcknowledging offset t q p s = .moved stage' p' s') :
    Closer s.coordinator p.worker (.acknowledging offset t q) s'.coordinator p'.worker stage' := by
  have hpos := hholds.unread_pos
  have hv : p.worker.neighbour offset < s.coordinator.numWorkers := hw ▸ hholds.neighbour_lt
  unfold stepAcknowledging at h
  dsimp only at h
  split at h
  · cases h
  · rename_i coordinator hc
    have hcoord : coordinator = s.coordinator.setBox (p.worker.neighbour offset)
        ((s.coordinator.box (p.worker.neighbour offset)).acknowledged p.worker.id q) := by
      rcases Runner.acknowledge_eq (r := (⟨p, .ready⟩ : Runner σ)) hid hlogs hw hholds with
        ⟨-, f, hf⟩ | ⟨heq, -⟩
      · rw [hc] at hf
        cases hf
      · rw [hc] at heq
        exact heq
    cases h
    refine ⟨rfl, Nat.le_refl _, ?_⟩
    have hunread : p.worker.unread coordinator offset = p.worker.unread s.coordinator offset - 1 := by
      have hnext : (coordinator.box (p.worker.neighbour offset)).next p.worker.id = q + 1 := by
        rw [hcoord, Coordinator.box_setBox_self hv, Mailbox.next_acknowledged _
          (by rw [(hlogs _ hv).size_cursors]; exact hid), if_pos rfl]
      rw [Worker.unread, Worker.unread, hnext, hholds.next_eq, hcoord]
      exact (Nat.sub_sub _ q 1).symm
    show (if _ then _ else 5) < 3 * p.worker.unread s.coordinator offset + _ + 4
    rw [if_pos hholds.offset_lt, hunread,
      Worker.sweep_congr (w := p.worker) (c := s.coordinator) rfl (by rw [hcoord]; rfl)]
    omega

/-- Before the next period is entered, every step of a worker that does not wait gets its boundary
on. -/
theorem closer_step (hid : p.worker.id < s.coordinator.numWorkers)
    (hlogs : s.coordinator.AllLogs) (hw : p.worker.numWorkers = s.coordinator.numWorkers)
    (hfits : b.stage.Fits s.coordinator p.worker) (hdue : b.stage.isDue = true)
    (hnot : ∀ length, b.stage ≠ .entering length)
    (hwaits : b.isWaiting p.worker s.coordinator = false)
    (h : b.step E p s = .moved stage' p' s') :
    Closer s.coordinator p.worker b.stage s'.coordinator p'.worker stage' := by
  obtain ⟨counters, stage⟩ := b
  cases stage with
  | exporting d => exact closer_exporting h
  | advancing => exact closer_advancing h
  | fetching offset t => exact closer_fetching h
  | reading offset t q =>
    obtain ⟨-, -, hholds⟩ := hfits
    exact closer_reading (b := ⟨counters, .reading offset t q⟩) hholds (hw ▸ hholds.neighbour_lt)
      hwaits h
  | acknowledging offset t q => exact closer_acknowledging hid hlogs hw hfits.2.2.1 h
  | averaging t => exact closer_averaging h
  | entering length => exact absurd rfl (hnot length)
  | deciding => cases hdue
  | answered goOn => cases hdue

end Boundary

/-! ## The steps of the loop -/

/-- Whether the engine searches or waits for the end of a period. -/
def Control.isEngaged : Control → Bool
  | .searching | .boundary _ => true
  | _ => false

/-- A bound on the number of steps in each round of the loop. -/
def Worker.roundLength (w : Worker) : Nat :=
  w.outbox.groups.size + (3 * (w.period + w.work) + 4) * w.numWorkers + 8

theorem Worker.roundLength_le {w w' : Worker}
    (hsize : w'.outbox.groups.size ≤ w.outbox.groups.size) (hnum : w'.numWorkers = w.numWorkers)
    (hwork : w'.period + w'.work ≤ w.period + w.work) : w'.roundLength ≤ w.roundLength := by
  have hmul : (3 * (w'.period + w'.work) + 4) * w'.numWorkers ≤
      (3 * (w.period + w.work) + 4) * w.numWorkers := by
    rw [hnum]
    exact Nat.mul_le_mul_right _ (by omega)
  unfold roundLength
  omega

/-- A round is long enough for a whole boundary. -/
theorem Worker.remaining_exporting_lt (c : Coordinator) (w : Worker) (d : Drain) :
    (Stage.exporting d).remaining c w < w.roundLength := by
  have hsweep : w.sweep c (w.numWorkers - 1) ≤ (3 * (w.period + w.work) + 4) * w.numWorkers := by
    rw [sweep, Nat.mul_comm]
    refine Nat.mul_le_mul ?_ (Nat.sub_le _ _)
    unfold importPeriod
    omega
  show w.outbox.groups.size + w.sweep c (w.numWorkers - 1) + 7 < _
  unfold roundLength
  omega

theorem Stage.remaining_pos (c : Coordinator) (w : Worker) (stage : Stage) :
    1 ≤ stage.remaining c w := by
  cases stage with
  | fetching offset t =>
    show 1 ≤ if offset < w.numWorkers then _ else 5
    split <;> omega
  | _ =>
    simp only [remaining]
    omega

namespace Runner

/-- A bound on the number of checks that are still to come. -/
def rounds (r : Runner σ) : Nat :=
  match r.control with
  | .searching => r.worker.work
  | .boundary b => if b.stage.isDue then r.worker.work - 1 else r.worker.work
  | _ => 0

/-- A bound on the number of steps to the end of the present boundary. -/
def remaining (c : Coordinator) (r : Runner σ) : Nat :=
  match r.control with
  | .boundary b => b.stage.remaining c r.worker
  | _ => 0

/-- A bound on the number of steps in the loop that are still to come. -/
def toil (c : Coordinator) (r : Runner σ) : Nat :=
  r.rounds * r.worker.roundLength + r.remaining c

/-- The checks that the next step of a runner begins. -/
def checks (E : Engine σ) (r : Runner σ) : List Unit :=
  match r.control with
  | .searching =>
    match E.request r.engine with
    | .checkPeriod => [()]
    | _ => []
  | _ => []

/-- The steps, one or none, that a runner takes next without waiting or looking. -/
def exertions (E : Engine σ) (r : Runner σ) (s : Shared) : List Unit :=
  match r.control with
  | .searching =>
    match E.request r.engine with
    | .observe => []
    | _ => [()]
  | _ => if r.isWaiting s.coordinator then [] else [()]

/-- Between two states of a runner in the loop, `checks` checks have begun and `steps` steps have been
taken, and the bounds on those to come have fallen by as many. -/
structure Nearer (c : Coordinator) (r : Runner σ) (c' : Coordinator) (r' : Runner σ)
    (checks steps : Nat) : Prop where
  engaged : r'.control.isEngaged = true ∨ r'.control.isBroken = true
  rounds_le : r'.rounds + checks ≤ r.rounds
  toil_le : r'.toil c' + steps ≤ r.toil c

theorem Nearer.trans {c c' c'' : Coordinator} {r r' r'' : Runner σ} {k k' n n' : Nat}
    (h : Nearer c r c' r' k n) (h' : Nearer c' r' c'' r'' k' n') :
    Nearer c r c'' r'' (k + k') (n + n') where
  engaged := h'.engaged
  rounds_le := by
    have := h.rounds_le
    have := h'.rounds_le
    omega
  toil_le := by
    have := h.toil_le
    have := h'.toil_le
    omega

/-- A step of the loop is paid for by the present boundary, or by one of the rounds. -/
theorem Nearer.of_le {c c' : Coordinator} {r r' : Runner σ} {k n : Nat}
    (hengaged : r'.control.isEngaged = true ∨ r'.control.isBroken = true)
    (hrounds : r'.rounds + k ≤ r.rounds) (hlength : r'.worker.roundLength ≤ r.worker.roundLength)
    (hremaining : r'.remaining c' + n ≤ r.remaining c + k * r.worker.roundLength) :
    Nearer c r c' r' k n where
  engaged := hengaged
  rounds_le := hrounds
  toil_le := by
    have hmul : r'.rounds * r'.worker.roundLength ≤ r'.rounds * r.worker.roundLength :=
      Nat.mul_le_mul_left _ hlength
    have hsum : r'.rounds * r.worker.roundLength + k * r.worker.roundLength ≤
        r.rounds * r.worker.roundLength := by
      rw [← Nat.add_mul]
      exact Nat.mul_le_mul_right _ hrounds
    unfold toil
    omega

/-- A worker that breaks a rule leaves the loop. -/
theorem Nearer.of_isBroken {c c' : Coordinator} {r r' : Runner σ} {k n : Nat}
    (hbroken : r'.control.isBroken = true) (hrounds : k ≤ r.rounds)
    (hremaining : n ≤ r.remaining c + k * r.worker.roundLength) : Nearer c r c' r' k n := by
  have hzero : r'.rounds = 0 ∧ r'.remaining c' = 0 := by
    unfold rounds remaining
    cases hr : r'.control <;> rw [hr] at hbroken <;> first | exact ⟨rfl, rfl⟩ | cases hbroken
  refine ⟨.inr hbroken, by omega, ?_⟩
  have hmul : k * r.worker.roundLength ≤ r.rounds * r.worker.roundLength :=
    Nat.mul_le_mul_right _ hrounds
  unfold toil
  rw [hzero.1, hzero.2, Nat.zero_mul]
  omega

section Step

variable {E : Engine σ} {r : Runner σ} {s : Shared}

/-- A check that begins uses up a round. -/
theorem nearer_searching (hr : r.control = .searching) (hpos : 1 ≤ r.worker.work)
    (hboundary : r.worker.atBoundary = true) (hstopped : r.worker.stopped = false)
    (hrequest : E.request r.engine = .checkPeriod ∨ E.request r.engine = .observe)
    (times : PhaseTimes) :
    Nearer s.coordinator r s.coordinator (r.serve E times) (r.checks E).length
      (r.exertions E s).length := by
  have hrounds : r.rounds = r.worker.work := by rw [rounds, hr]
  unfold checks exertions serve
  rw [hr]
  rcases hrequest with hreq | hreq
  · rw [hreq]
    dsimp only
    unfold Post.arrive
    rw [hstopped, hboundary, if_neg Bool.false_ne_true, if_pos rfl]
    cases E.statistics r.engine with
    | error f =>
      refine .of_isBroken rfl (by rw [hrounds]; exact hpos) ?_
      have : 8 ≤ r.worker.roundLength := Nat.le_add_left _ _
      simp only [List.length_singleton, Nat.one_mul]
      omega
    | ok counters =>
      refine .of_le (.inl rfl) ?_ (Nat.le_refl _) ?_
      · rw [hrounds]
        exact Nat.sub_add_cancel hpos |>.le
      · have hlt := Worker.remaining_exporting_lt s.coordinator r.worker {}
        have hremaining : r.remaining s.coordinator = 0 := by rw [remaining, hr]
        rw [hremaining, List.length_singleton, Nat.one_mul, Nat.zero_add]
        exact hlt
  · rw [hreq]
    refine .of_le (.inl rfl) ?_ (Nat.le_refl _) (Nat.zero_le _)
    rw [hrounds]
    exact Nat.le_refl _

section Boundary

variable {b : Boundary} (hr : r.control = .boundary b)
include hr

theorem rounds_boundary :
    r.rounds = if b.stage.isDue then r.worker.work - 1 else r.worker.work := by
  rw [rounds, hr]

theorem remaining_boundary (c : Coordinator) : r.remaining c = b.stage.remaining c r.worker := by
  rw [remaining, hr]

theorem one_le_remaining (c : Coordinator) (n : Nat) : 0 + 1 ≤ r.remaining c + n := by
  rw [remaining_boundary hr]
  exact (b.stage.remaining_pos c r.worker).trans (Nat.le_add_right _ _)

/-- The answer to a check ends the boundary, -/
theorem nearer_answered {goOn : Bool} (hb : b.stage = .answered goOn) :
    Nearer s.coordinator r (r.step E s).2.coordinator (r.step E s).1 0 1 := by
  rw [step_answered E s hr hb]
  refine .of_le (.inl rfl) ?_ (Nat.le_refl _) (one_le_remaining hr _ _)
  rw [rounds_boundary hr, hb]
  exact Nat.le_refl _

/-- entering a period uses up at least one unit of the work, -/
theorem nearer_entering {length : Nat} (hb : b.stage = .entering length)
    (hlength : 1 ≤ r.worker.periodLength) (hused : r.worker.periodLength ≤ r.worker.work) :
    Nearer s.coordinator r (r.step E s).2.coordinator (r.step E s).1 0 1 := by
  rw [step_boundary E s hr (by rw [hb]; exact fun _ => Stage.noConfusion)]
  unfold Boundary.step Boundary.stepEntering
  rw [hb]
  dsimp only
  cases hw : r.worker.enter length with
  | error f => exact .of_isBroken rfl (Nat.zero_le _) (one_le_remaining hr _ _)
  | ok w =>
    obtain rfl := Worker.enter_eq_ok hw
    refine .of_le (.inl rfl) ?_ (Worker.roundLength_le (Nat.le_refl _) rfl ?_) ?_
    · rw [rounds_boundary hr, hb]
      show r.worker.work - r.worker.periodLength ≤ r.worker.work - 1
      omega
    · show r.worker.period + 1 + (r.worker.work - r.worker.periodLength) ≤ _
      omega
    · rw [remaining_boundary hr, hb]
      exact Nat.le_add_right _ _

/-- and every other step in a boundary that does not wait gets the worker on. -/
theorem nearer_boundary (hid : r.worker.id < s.coordinator.numWorkers)
    (hlogs : s.coordinator.AllLogs) (hw : r.worker.numWorkers = s.coordinator.numWorkers)
    (hfits : b.stage.Fits s.coordinator r.worker)
    (hwaits : b.isWaiting r.worker s.coordinator = false) (hlength : 1 ≤ r.worker.periodLength)
    (hdue : b.stage.isDue = true → r.worker.periodLength ≤ r.worker.work) :
    Nearer s.coordinator r (r.step E s).2.coordinator (r.step E s).1 0 1 := by
  by_cases hanswered : ∃ goOn, b.stage = .answered goOn
  · obtain ⟨goOn, hb⟩ := hanswered
    exact nearer_answered hr hb
  by_cases hentering : ∃ length, b.stage = .entering length
  · obtain ⟨length, hb⟩ := hentering
    exact nearer_entering hr hb hlength (hdue (by rw [hb]; rfl))
  push Not at hanswered hentering
  have hsame := (r.step_cases E s hid).same.numWorkers_eq
  rw [step_boundary E s hr hanswered] at hsame ⊢
  have hstill := kept_boundary_step E s b r.toPost hentering
  cases hstep : b.step E r.toPost s with
  | failed f p' s' => exact .of_isBroken rfl (Nat.zero_le _) (one_le_remaining hr _ _)
  | moved stage' p' s' =>
    rw [hstep] at hsame hstill
    have hwork : p'.worker.work = r.worker.work := hstill.work_eq
    have hperiod : p'.worker.period = r.worker.period := hstill.period_eq
    cases hb : b.stage.isDue with
    | true =>
      have hcloser := Boundary.closer_step hid hlogs hw hfits hb hentering hwaits hstep
      refine .of_le (.inl rfl) ?_ (Worker.roundLength_le hcloser.size_le hsame ?_) ?_
      · rw [rounds_boundary rfl, rounds_boundary hr, hb, hcloser.isDue, hwork]
        exact Nat.le_refl _
      · rw [hwork, hperiod]
      · rw [remaining_boundary hr, Nat.zero_mul]
        exact hcloser.remaining_lt
    | false =>
      obtain ⟨counters, stage⟩ := b
      cases stage with
      | deciding =>
        unfold Boundary.step Boundary.stepDeciding at hstep
        cases hstep
        refine .of_le (.inl rfl) ?_ (Nat.le_refl _) ?_
        · rw [rounds_boundary hr, rounds_boundary rfl]
          exact Nat.le_refl _
        · rw [remaining_boundary hr]
          exact Nat.le_add_right _ _
      | answered goOn => exact absurd rfl (hanswered goOn)
      | _ => cases hb

end Boundary

/-- The loop is over: a rule has been broken, or the engine searches and is not at the boundary any
more, or has been told to stop. -/
def HasLeftLoop (r : Runner σ) : Prop :=
  r.control.isBroken = true ∨
    r.control = .searching ∧ (r.worker.work < r.worker.periodLength ∨ r.worker.stopped = true)

/-- Every step in the loop gets the worker on, unless it waits or looks. -/
theorem nearer_step {config : Config} {i : Nat} {lengths : List Nat} {work : Nat}
    (hengaged : r.control.isEngaged = true) (hin : ¬ r.HasLeftLoop)
    (hrequest : r.control = .searching →
      E.request r.engine = .checkPeriod ∨ E.request r.engine = .observe)
    (hstands : r.Standing config s.coordinator i) (htimed : r.Timed lengths work)
    (hi : i < s.coordinator.numWorkers) (hlogs : s.coordinator.AllLogs)
    (hnum : s.coordinator.numWorkers = config.numWorkers) :
    Nearer s.coordinator r (r.step E s).2.coordinator (r.step E s).1 (r.checks E).length
      (r.exertions E s).length := by
  cases hr : r.control with
  | searching =>
    have hboundary : r.worker.periodLength ≤ r.worker.work := by
      refine Nat.le_of_not_lt fun hlt => hin (.inr ⟨hr, .inl hlt⟩)
    have hstopped : r.worker.stopped = false := by
      rw [← Bool.not_eq_true]
      exact fun hstop => hin (.inr ⟨hr, .inr hstop⟩)
    rw [step_searching E s hr]
    exact nearer_searching hr (htimed.length_pos.trans hboundary) (decide_eq_true hboundary)
      hstopped (hrequest hr) _
  | boundary b =>
    have hfits := hstands.fits
    rw [hr] at hfits
    have hchecks : r.checks E = [] := by rw [checks, hr]
    have hwaiting : r.isWaiting s.coordinator = b.isWaiting r.worker s.coordinator := by
      rw [isWaiting, hr]
    have hexertions : r.exertions E s = if r.isWaiting s.coordinator then [] else [()] := by
      rw [exertions, hr]
    rw [hchecks, hexertions]
    cases hwaits : r.isWaiting s.coordinator with
    | true =>
      rw [(r.step_of_not_canStep E (by rw [canStep, hwaits, Bool.not_true, Bool.and_false])).1]
      exact ⟨.inl hengaged, Nat.le_refl _, Nat.le_refl _⟩
    | false =>
      exact nearer_boundary hr (by rw [hstands.id_eq]; exact hi) hlogs
        (by rw [hstands.numWorkers_eq, hnum]) hfits.2.2 (hwaiting.symm.trans hwaits)
        htimed.length_pos (htimed.due b hr)
  | _ =>
    rw [hr] at hengaged
    cases hengaged

end Step

end Runner

/-! ## What the steps of others leave alone -/

theorem Stage.remaining_frame {c c' : Coordinator} {w : Worker} {j : Nat} (heff : c.Effect j c')
    (hj : j < c.numWorkers) (hc : c.AllLogs) (hne : w.id ≠ j) (stage : Stage) :
    stage.remaining c' w = stage.remaining c w := by
  have hsweep (n : Nat) : w.sweep c' n = w.sweep c n := Worker.sweep_congr rfl heff.margin_eq n
  have hunread (offset : Nat) : w.unread c' offset = w.unread c offset := by
    rw [Worker.unread, Worker.unread, heff.margin_eq, heff.next_eq hj hc hne]
  cases stage <;> simp only [remaining, hsweep, hunread]

theorem Runner.toil_frame {c c' : Coordinator} {r : Runner σ} {j : Nat} (heff : c.Effect j c')
    (hj : j < c.numWorkers) (hc : c.AllLogs) (hne : r.worker.id ≠ j) : r.toil c' = r.toil c := by
  unfold toil remaining
  cases r.control with
  | boundary b =>
    dsimp only
    rw [Stage.remaining_frame heff hj hc hne]
  | _ => rfl

/-! ## The whole loop -/

namespace Exchange

variable {config : Config} {x : Exchange σ} {E : Engine σ}

/-- Along a further schedule the engine of worker `w` asks for nothing but checks as long as it is at
the boundary and has not been told to stop; in between it may look at its worker. -/
def Loops (E : Engine σ) (x : Exchange σ) (schedule : List Nat) (w : Nat) : Prop :=
  ∀ (n : Nat) (q : Runner σ), (x.follow E (schedule.take n)).runners[w]? = some q →
    q.control = .searching → q.worker.atBoundary = true → q.worker.stopped = false →
      E.request q.engine = .checkPeriod ∨ E.request q.engine = .observe

/-- Whether the engine of worker `w` asks for a check, or looks at its worker, if it is at the
boundary and has not been told to stop. -/
def loopsNow (E : Engine σ) (w : Nat) (x : Exchange σ) : Bool :=
  x.runners[w]?.all fun q =>
    q.control != .searching || !q.worker.atBoundary || q.worker.stopped ||
      match E.request q.engine with
      | .checkPeriod | .observe => true
      | _ => false

theorem loops_of_throughout {schedule : List Nat} {w : Nat}
    (h : throughout E (loopsNow E w) x schedule = true) : x.Loops E schedule w := by
  intro n q hq hsearching hboundary hstopped
  have hnow := of_throughout h n
  rw [loopsNow, hq, Option.all_some, hsearching, hboundary, hstopped] at hnow
  cases hrequest : E.request q.engine <;> simp [hrequest] at hnow ⊢

/-- As long as the loop goes on, every check and every step that does not wait or look gets the worker
nearer to its end. -/
theorem Fresh.nearer_follow (h : x.Fresh config) (hlength : 1 ≤ config.periodLength) {t : List Nat}
    {w : Nat} {r : Runner σ} (hr : (x.follow E t).runners[w]? = some r)
    (hengaged : r.control.isEngaged = true) (u : List Nat) (hloops : (x.follow E t).Loops E u w)
    (hin : ∀ (n : Nat) (q : Runner σ), n < u.length →
      ((x.follow E t).follow E (u.take n)).runners[w]? = some q → ¬ q.HasLeftLoop) :
    ∃ q, ((x.follow E t).follow E u).runners[w]? = some q ∧
      Runner.Nearer (x.follow E t).shared.coordinator r
        ((x.follow E t).follow E u).shared.coordinator q
        ((x.follow E t).record E (fun r _ => r.checks E) u w).length
        ((x.follow E t).record E (fun r s => r.exertions E s) u w).length := by
  induction u using List.reverseRecOn with
  | nil => exact ⟨r, hr, .inl hengaged, Nat.le_refl _, Nat.le_refl _⟩
  | append_singleton u j ih =>
    have htake (n : Nat) (hn : n ≤ u.length) : (u ++ [j]).take n = u.take n :=
      List.take_append_of_le_length hn
    obtain ⟨q, hq, hnearer⟩ := ih
      (fun n q hq => by
        rcases Nat.le_total n u.length with hn | hn
        · exact hloops n q (by rw [htake n hn]; exact hq)
        · rw [List.take_of_length_le hn] at hq
          exact hloops u.length q (by rw [htake _ (Nat.le_refl _), List.take_length]; exact hq))
      (fun n q hn hq => hin n q (by rw [List.length_append]; omega) (by rwa [htake n hn.le]))
    have hwhole : (u ++ [j]).take u.length = u := by rw [htake _ (Nat.le_refl _), List.take_length]
    have hnot : ¬ q.HasLeftLoop :=
      hin u.length q (by simp) (by rw [hwhole]; exact hq)
    have hstands := h.standing.follow E (t ++ u)
    have htimed := h.timed_follow hlength E (t ++ u) (w := w) (r := q)
      (by rw [follow_append]; exact hq)
    rw [follow_append] at hstands
    have hlt := hstands.lt_mailboxes (hstands.lt_numWorkers hq)
    rw [follow_concat, record_concat, record_concat, hq, Option.map_some, Option.map_some,
      Option.getD_some, Option.getD_some]
    by_cases hjw : j = w
    · subst hjw
      rw [if_pos rfl, if_pos rfl, List.length_append, List.length_append, turn_of_some E hq]
      refine ⟨_, by rw [← turn_of_some E hq, runners_turn E hq, if_pos rfl], hnearer.trans ?_⟩
      refine Runner.nearer_step ?_ hnot (fun hsearching => ?_) (hstands.runner _ q hq) htimed hlt
        hstands.logs hstands.numWorkers_eq
      · exact hnearer.engaged.resolve_right fun hbroken => hnot (.inl hbroken)
      · refine hloops u.length q (by rw [hwhole]; exact hq) hsearching ?_ ?_
        · refine decide_eq_true (Nat.le_of_not_lt fun hless => ?_)
          exact hnot (.inr ⟨hsearching, .inl hless⟩)
        · rw [← Bool.not_eq_true]
          exact fun hstop => hnot (.inr ⟨hsearching, .inr hstop⟩)
    · rw [if_neg hjw, if_neg hjw, List.append_nil, List.append_nil]
      rcases hstands.turn_cases E j with ⟨heq, -⟩ | ⟨s, s', hs, -, heff, hrunners⟩
      · rw [heq]
        exact ⟨q, hq, hnearer⟩
      · refine ⟨q, by rw [hrunners, if_neg (Ne.symm hjw)]; exact hq, hnearer.engaged,
          hnearer.rounds_le, ?_⟩
        rw [Runner.toil_frame heff (hstands.lt_mailboxes (hstands.lt_numWorkers hs)) hstands.logs
          (by rw [(hstands.runner w q hq).id_eq]; exact Ne.symm hjw)]
        exact hnearer.toil_le

end Exchange

/-- A check before the boundary, or after the worker has been told to stop, does nothing. -/
theorem Runner.idle_check (E : Engine σ) {r : Runner σ}
    (hidle : r.worker.atBoundary = false ∨ r.worker.stopped = true) :
    (∀ s, r.toPost.checkPeriod E s = (.answered (!r.worker.stopped), r.toPost, s)) ∧
      (r.control = .searching → E.request r.engine = .checkPeriod → ∀ s s',
        r.step E s = ({ r with control := .boundary ⟨{}, .answered (!r.worker.stopped)⟩ }, s) ∧
          (r.step E s).1.step E s' = (r.reply E (.answer (!r.worker.stopped)), s')) := by
  have harrive : r.toPost.arrive E = .ok ⟨{}, .answered (!r.worker.stopped)⟩ := by
    unfold Post.arrive
    cases hstop : r.worker.stopped with
    | true => rfl
    | false =>
      have hboundary := hidle.resolve_right (by simp [hstop])
      rw [hboundary]
      rfl
  refine ⟨fun s => ?_, fun hr hreq s s' => ?_⟩
  · unfold Post.checkPeriod
    rw [harrive]
    rfl
  · have hstep : r.step E s =
        ({ r with control := .boundary ⟨{}, .answered (!r.worker.stopped)⟩ }, s) := by
      rw [step_searching E s hr, serve, hreq]
      dsimp only
      rw [harrive]
    refine ⟨hstep, ?_⟩
    rw [hstep]
    rfl

namespace Portfolio

/-- The clock of a worker, at every moment of every run.

All work that its engine has done, as long as it fits a machine word, is that of the completed periods
and of the present one; the counter of periods and the number of the open set show the period, and no
period has the length `0`. A check that is not due does nothing. Therefore a loop that checks as long
as it is at the boundary begins at most as many checks as there are units of work at its start, and is
left after a bounded number of steps that do not wait. -/
theorem logical_clock (E : Engine σ) {engines : List σ} {config : Config} {sensors : Sensors}
    {p : Portfolio σ} (h : launch engines config sensors = .ok p) (t : List Nat) {w : Nat}
    {r : Runner σ} (hr : (p.toExchange.follow E t).runners[w]? = some r) :
    let x := p.toExchange.follow E t
    let work := (p.toExchange.record E (fun r _ => r.worked E) t w).sum
    (∃ completed, config.periodLength :: (p.toExchange.journal E t w).filterMap Event.length? =
        completed ++ [r.worker.periodLength] ∧ completed.length = r.worker.period ∧
        (work < Word.bound → work = completed.sum + r.worker.work)) ∧
    r.worker.stats.periods = r.worker.period ∧
    (r.control.isAligned = true → (x.shared.coordinator.box w).isClosed = false ∧
      (x.shared.coordinator.box w).tail.period = r.worker.period) ∧
    1 ≤ r.worker.periodLength ∧
    (r.worker.atBoundary = false ∨ r.worker.stopped = true →
      (∀ s, r.toPost.checkPeriod E s = (.answered (!r.worker.stopped), r.toPost, s)) ∧
      (r.control = .searching → E.request r.engine = .checkPeriod → ∀ s s',
        r.step E s = ({ r with control := .boundary ⟨{}, .answered (!r.worker.stopped)⟩ }, s) ∧
          (r.step E s).1.step E s' = (r.reply E (.answer (!r.worker.stopped)), s'))) ∧
    (r.control = .searching → ∀ u, x.Loops E u w →
      let checks n := (x.record E (fun r _ => r.checks E) (u.take n) w).length
      let steps n := (x.record E (fun r s => r.exertions E s) (u.take n) w).length
      let left n := ∃ q, (x.follow E (u.take n)).runners[w]? = some q ∧ q.HasLeftLoop
      (∀ n ≤ u.length, (∀ m < n, ¬ left m) →
        checks n ≤ r.worker.work ∧ steps n ≤ r.worker.work * r.worker.roundLength) ∧
      (r.worker.work * r.worker.roundLength < steps u.length →
        ∃ n ≤ u.length, left n ∧ checks n ≤ r.worker.work)) := by
  intro x work
  have hfresh := fresh_of_launch h
  have hlength := one_le_periodLength_of_launch h
  have htimed := hfresh.timed_follow hlength E t hr
  refine ⟨htimed.account, htimed.periods_eq,
    (hfresh.standing.follow E t).tail_of_isAligned hr, htimed.length_pos, Runner.idle_check E,
    fun hsearching u hloops => ?_⟩
  intro checks steps left
  have hbound : ∀ n ≤ u.length, (∀ m < n, ¬ left m) →
      checks n ≤ r.worker.work ∧ steps n ≤ r.worker.work * r.worker.roundLength := by
    intro n hn hin
    have hlen : (u.take n).length = n := by rw [List.length_take]; omega
    obtain ⟨q, -, -, hrounds, htoil⟩ := hfresh.nearer_follow hlength hr (by rw [hsearching]; rfl)
      (u.take n) (fun m q hq => hloops (min m n) q (by rwa [List.take_take] at hq))
      (fun m q hm hq hleft => hin m (by omega) ⟨q, by
        rwa [List.take_take, Nat.min_eq_left (by omega)] at hq, hleft⟩)
    have hrounds₀ : r.rounds = r.worker.work := by rw [Runner.rounds, hsearching]
    have htoil₀ : r.toil x.shared.coordinator = r.worker.work * r.worker.roundLength := by
      rw [Runner.toil, hrounds₀, Runner.remaining, hsearching]
      rfl
    exact ⟨(Nat.le_add_left _ _).trans (hrounds.trans_eq hrounds₀),
      (Nat.le_add_left _ _).trans (htoil.trans_eq htoil₀)⟩
  refine ⟨hbound, fun hmany => ?_⟩
  by_cases hex : ∃ n, n ≤ u.length ∧ left n
  · classical
    obtain ⟨hn, hleft⟩ := Nat.find_spec hex
    refine ⟨Nat.find hex, hn, hleft, (hbound _ hn fun m hm hm' => ?_).1⟩
    exact Nat.find_min hex hm ⟨hm.le.trans hn, hm'⟩
  · have hall := hbound u.length (Nat.le_refl _) fun m hm hm' => hex ⟨m, hm.le, hm'⟩
    exact absurd hall.2 (Nat.not_le.2 hmany)

/-- The first of two scripted engines has done the work of two periods and has completed one. It
leaves its loop after at most one check, since it takes more than the `28` steps that this can
last. -/
theorem logical_clock_scripted : ∃ p r,
    launch [{ script := { work := 2 } }, { script := { work := 2 } }]
      { numWorkers := 2, margin := 1, periodLength := 1 } {} = .ok p ∧
    let E := Scripted.engine
    let t := (List.replicate 10 [0, 1]).flatten
    let u := (List.replicate 40 [0, 1]).flatten
    let x := p.toExchange.follow E t
    x.runners[0]? = some r ∧ r.control = .searching ∧
    (p.toExchange.record E (fun r _ => r.worked E) t 0).sum = 2 ∧
    r.worker.work = 1 ∧ r.worker.stats.periods = 1 ∧ r.worker.work * r.worker.roundLength = 28 ∧
    x.Loops E u 0 ∧
    ∃ n ≤ u.length, (∃ q, (x.follow E (u.take n)).runners[0]? = some q ∧ q.HasLeftLoop) ∧
      (x.record E (fun r _ => r.checks E) (u.take n) 0).length ≤ 1 := by
  obtain ⟨p, hp, hcheck⟩ := exists_eq_ok_of_check
    (x := launch ([{ script := { work := 2 } }, { script := { work := 2 } }] : List Scripted)
      { numWorkers := 2, margin := 1, periodLength := 1 } {})
    (q := fun p =>
      let E := Scripted.engine
      let t := (List.replicate 10 [0, 1]).flatten
      let u := (List.replicate 40 [0, 1]).flatten
      let x := p.toExchange.follow E t
      x.runners[0]?.any (fun r : Runner Scripted => r.control == .searching &&
        r.worker.work == 1 && r.worker.period == 1 &&
        r.worker.work * r.worker.roundLength == 28) &&
      (p.toExchange.record E (fun r _ => r.worked E) t 0).sum == 2 &&
      Exchange.throughout E (Exchange.loopsNow E 0) x u &&
      decide (28 < (x.record E (fun r s => r.exertions E s) u 0).length)) (by decide +kernel)
  simp only [Bool.and_eq_true, beq_iff_eq, Option.any_eq_true, decide_eq_true_eq] at hcheck
  obtain ⟨⟨⟨⟨r, hr, ⟨⟨hsearching, hwork⟩, hperiod⟩, htoil⟩, hsum⟩, hloops⟩, hmany⟩ := hcheck
  have hloops := Exchange.loops_of_throughout hloops
  obtain ⟨-, hperiods, -, -, -, hleave⟩ := logical_clock Scripted.engine hp _ hr
  obtain ⟨n, hn, hleft, hchecks⟩ := (hleave hsearching _ hloops).2 (by rw [htoil]; exact hmany)
  rw [hwork] at hchecks
  exact ⟨p, r, hp, hr, hsearching, hsum, hwork, hperiods.trans hperiod, htoil, hloops, n, hn, hleft,
    hchecks⟩

end Portfolio

end ClauseExchange
