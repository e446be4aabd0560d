import ClauseExchange.Engine.Scripted
import ClauseExchange.Proofs.Exchange.Standing
import Mathlib.Data.Finset.Max
import Mathlib.Logic.Relation

/-!
# No exchange gets stuck

A worker waits only for a set that its producer has not completed. The producer's mailbox then has
fewer sets than the worker's own (`Standing.size_past_lt_of_waitsFor`), so that the workers never
wait for each other in a circle, and among those that have not left one with the fewest sets can go
on. A worker that has left has closed its mailbox, so that nobody waits for it.

* `Exchange.WaitsFor` is the relation between a worker and the one that it waits for.
* `Portfolio.deadlock_free` puts it together for every schedule.
-/

namespace ClauseExchange

variable {σ : Type}

namespace Exchange

/-- Worker `w` is blocked on the open tail of the mailbox of worker `v`: it holds that set, and does
not skip sets that are open. -/
def WaitsFor (x : Exchange σ) (w v : Nat) : Prop :=
  ∃ r b offset tally, x.runners[w]? = some r ∧ r.control = .boundary b ∧
    r.worker.neighbour offset = v ∧
    b.stage = .reading offset tally (x.shared.coordinator.box v).past.size ∧
    (x.shared.coordinator.box v).isClosed = false ∧ r.worker.config.nonDeterministic = false

namespace Standing

variable {config : Config} {x : Exchange σ}

/-- A set that a worker holds is complete, unless it is the open tail. -/
theorem completed_iff_of_holds (h : x.Standing config) {w : Nat} {r : Runner σ}
    (hr : x.runners[w]? = some r) {offset q : Nat}
    (hholds : x.shared.coordinator.Holds r.worker offset q) :
    (x.shared.coordinator.set? (r.worker.neighbour offset) q).any (·.isCompleted) = true ↔
      ¬ (q = (x.shared.coordinator.box (r.worker.neighbour offset)).past.size ∧
        (x.shared.coordinator.box (r.worker.neighbour offset)).isClosed = false) := by
  have hlt := h.lt_mailboxes (h.neighbour_lt hr offset)
  have hpast := hholds.past_le
  obtain ⟨s, hs⟩ := Option.isSome_iff_exists.1 (Mailbox.set?_isSome_iff.2 hpast)
  rw [Coordinator.set?_eq hlt, hs, Option.any_some, (h.logs _ hlt).set?_completed_iff hs,
    Mailbox.completed]
  cases (x.shared.coordinator.box (r.worker.neighbour offset)).isClosed
  · simp
    omega
  · simp
    omega

/-- A worker waits if and only if it is blocked on some worker's open tail. -/
theorem isWaiting_iff (h : x.Standing config) {w : Nat} {r : Runner σ}
    (hr : x.runners[w]? = some r) :
    r.isWaiting x.shared.coordinator = true ↔ ∃ v, x.WaitsFor w v := by
  constructor
  · intro hwait
    unfold Runner.isWaiting at hwait
    split at hwait
    · rename_i b hb
      unfold Boundary.isWaiting at hwait
      split at hwait
      · rename_i offset t q hstage
        obtain ⟨-, -, -, -, hholds⟩ := Runner.fits_boundary (h.runner w r hr).fits hb hstage
        rw [Bool.and_eq_true, Bool.not_eq_true', Bool.not_eq_true', ← Bool.not_eq_true,
          ← Bool.not_eq_true, h.completed_iff_of_holds hr hholds, not_not,
          Bool.not_eq_true] at hwait
        obtain ⟨hmode, rfl, hopen⟩ := hwait
        exact ⟨_, r, b, offset, t, hr, hb, rfl, hstage, hopen, hmode⟩
      · cases hwait
    · cases hwait
  · rintro ⟨v, r', b, offset, t, hr', hb, rfl, hstage, hopen, hmode⟩
    obtain rfl := Option.some.inj (hr.symm.trans hr')
    obtain ⟨-, -, -, -, hholds⟩ := Runner.fits_boundary (h.runner w r hr).fits hb hstage
    have hcomp := (h.completed_iff_of_holds hr hholds).not.2 (not_not.2 ⟨rfl, hopen⟩)
    rw [Runner.isWaiting, hb]
    dsimp only
    rw [Boundary.isWaiting, hstage]
    dsimp only
    rw [hmode, Bool.eq_false_of_not_eq_true hcomp]
    rfl

/-- Whoever is waited for has completed fewer sets than the one that waits. -/
theorem size_past_lt_of_waitsFor (h : x.Standing config) {w v : Nat} (hwv : x.WaitsFor w v) :
    (x.shared.coordinator.box v).past.size < (x.shared.coordinator.box w).past.size := by
  obtain ⟨r, b, offset, t, hr, hb, rfl, hstage, -, -⟩ := hwv
  obtain ⟨-, hpast, -, -, hholds⟩ := Runner.fits_boundary (h.runner w r hr).fits hb hstage
  have hle : _ ≤ r.worker.period - _ := hholds.period_le
  rw [(h.runner w r hr).id_eq, Stage.ahead] at hpast
  omega

/-- The workers do not wait for each other in a circle. -/
theorem not_waitsFor_circle (h : x.Standing config) (w : Nat) :
    ¬ Relation.TransGen x.WaitsFor w w := by
  have hlt : ∀ u, Relation.TransGen x.WaitsFor w u →
      (x.shared.coordinator.box u).past.size < (x.shared.coordinator.box w).past.size := by
    intro u hu
    induction hu with
    | single hwu => exact h.size_past_lt_of_waitsFor hwu
    | tail _ huv ih => exact (h.size_past_lt_of_waitsFor huv).trans ih
  exact fun hcircle => lt_irrefl _ (hlt w hcircle)

/-- Nobody waits for a worker that has left. -/
theorem not_isOver_of_waitsFor (h : x.Standing config) {w v : Nat} (hwv : x.WaitsFor w v) :
    ∃ r, x.runners[v]? = some r ∧ r.isOver = false := by
  obtain ⟨r, b, offset, t, hr, hb, rfl, hstage, hopen, -⟩ := hwv
  obtain ⟨q, hq⟩ := h.exists_runner (h.neighbour_lt hr offset)
  refine ⟨q, hq, ?_⟩
  have hstands := h.runner _ q hq
  have hfits := hstands.fits
  rw [← hstands.id_eq] at hopen
  -- a run that is over has closed its mailbox
  unfold Runner.isOver Control.isOver
  split
  · rename_i hk
    rw [hk] at hfits
    exact absurd (hfits.1.symm.trans hopen) (by decide)
  · rename_i hk
    rw [hk] at hfits
    exact absurd (hfits.1.symm.trans hopen) (by decide)
  · rfl

/-- As long as some worker has not left, some worker can go on. -/
theorem exists_canStep (h : x.Standing config) (hover : x.isOver = false) :
    ∃ (i : Nat) (r : Runner σ), x.runners[i]? = some r ∧ r.canStep x.shared.coordinator = true := by
  -- by the number of sets that a worker has completed: who waits does so for one with fewer
  have hbelow : ∀ (n i : Nat) (r : Runner σ), x.runners[i]? = some r → r.isOver = false →
      (x.shared.coordinator.box i).past.size = n →
      ∃ (i : Nat) (r : Runner σ), x.runners[i]? = some r ∧
        r.canStep x.shared.coordinator = true := by
    intro n
    induction n using Nat.strong_induction_on with
    | _ n ih =>
      intro i r hr hgoing hn
      by_cases hwait : r.isWaiting x.shared.coordinator = true
      · obtain ⟨v, hiv⟩ := (h.isWaiting_iff hr).1 hwait
        obtain ⟨r', hr', hgoing'⟩ := h.not_isOver_of_waitsFor hiv
        have hlt := h.size_past_lt_of_waitsFor hiv
        exact ih _ (by rw [← hn]; exact hlt) v r' hr' hgoing' rfl
      · refine ⟨i, r, hr, ?_⟩
        rw [Runner.canStep, hgoing, Bool.eq_false_of_not_eq_true hwait]
        rfl
  unfold isOver at hover
  obtain ⟨i, hi, hgoing⟩ := Array.all_eq_false.1 hover
  exact hbelow _ i _ (Array.getElem?_eq_getElem hi) (Bool.eq_false_of_not_eq_true hgoing) rfl

end Standing

end Exchange

/-! ## Deadlock freedom -/

namespace Portfolio

/-- No schedule of a launched portfolio gets stuck. Unless all workers have left, one of those that
have not is not blocked on an open set; workers are blocked on each other's open tails only, never
in a circle, and never on a worker that has left. -/
theorem deadlock_free (E : Engine σ) {engines : List σ} {config : Config} {sensors : Sensors}
    {p : Portfolio σ} (h : launch engines config sensors = .ok p) (schedule : List Nat) :
    let x := p.toExchange.follow E schedule
    (x.isOver = false → ∃ (i : Nat) (r : Runner σ), x.runners[i]? = some r ∧
      r.canStep x.shared.coordinator = true) ∧
    (∀ (w : Nat) (r : Runner σ), x.runners[w]? = some r →
      (r.isWaiting x.shared.coordinator = true ↔ ∃ v, x.WaitsFor w v)) ∧
    (∀ w, ¬ Relation.TransGen x.WaitsFor w w) ∧
    ∀ w v, x.WaitsFor w v → ∃ r, x.runners[v]? = some r ∧ r.isOver = false := by
  have hx := standing_follow h E schedule
  exact ⟨hx.exists_canStep, fun w r hr => hx.isWaiting_iff hr, hx.not_waitsFor_circle,
    fun w v => hx.not_isOver_of_waitsFor⟩

/-- Of two engines that work for one period, one has come as far as it can alone, and waits. -/
theorem deadlock_free_brief : ∃ p,
    launch [Brief.beginning, .beginning] { numWorkers := 2, margin := 0, periodLength := 1 } {} =
      .ok p ∧
    let x := p.toExchange.follow Brief.engine (List.replicate 9 0)
    x.runners[0]?.any (·.isWaiting x.shared.coordinator) = true ∧
    ∃ (i : Nat) (r : Runner Brief), x.runners[i]? = some r ∧
      r.canStep x.shared.coordinator = true := by
  obtain ⟨p, hp, hcheck⟩ := exists_eq_ok_of_check
    (x := launch [Brief.beginning, .beginning]
      { numWorkers := 2, margin := 0, periodLength := 1 } {})
    (q := fun p =>
      let x := p.toExchange.follow Brief.engine (List.replicate 9 0)
      !x.isOver && x.runners[0]?.any (·.isWaiting x.shared.coordinator)) (by decide +kernel)
  obtain ⟨hgoing, hwait⟩ := Bool.and_eq_true_iff.1 hcheck
  have h := deadlock_free Brief.engine hp (List.replicate 9 0)
  exact ⟨p, hp, hwait, h.1 (by simpa using hgoing)⟩

end Portfolio

end ClauseExchange
