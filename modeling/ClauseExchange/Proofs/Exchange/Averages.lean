import ClauseExchange.Engine.Scripted
import ClauseExchange.Proofs.Exchange.Candidates
import ClauseExchange.Proofs.Exchange.Sums
import Mathlib.Algebra.Order.BigOperators.Group.Finset
import Mathlib.Data.Finset.Max

/-!
# Averages of candidates

The adaptive length of a period is the mean of candidates, fitted to the bounds of the
configuration. A worker's own candidate is always among them, so that there is a mean, and it lies
between the smallest and the largest of them.

* `Runner.step_reading` and `Runner.step_averaging` say that only the sum of the candidates can
  overflow.
* `Portfolio.length_within_bounds` puts it together for every schedule, in both modes.
-/

namespace ClauseExchange

/-- The candidates of `lo` and `hi` are the smallest and the largest of those of the workers in `used`,
and the mean lies between them. -/
structure Coordinator.Encloses (c : Coordinator) (q : Nat) (used : Finset Nat) (lo hi : Nat) :
    Prop where
  lo_mem : lo ∈ used
  hi_mem : hi ∈ used
  lo_le : ∀ v ∈ used, c.candidate lo q ≤ c.candidate v q
  le_hi : ∀ v ∈ used, c.candidate v q ≤ c.candidate hi q
  lo_le_mean : c.candidate lo q ≤ (∑ v ∈ used, c.candidate v q) / used.card
  mean_le_hi : (∑ v ∈ used, c.candidate v q) / used.card ≤ c.candidate hi q

/-- Before it is fitted to the bounds, a mean lies between the smallest and the largest candidate. -/
theorem Coordinator.exists_encloses (c : Coordinator) (q : Nat) {used : Finset Nat}
    (hused : used.Nonempty) : ∃ lo hi, c.Encloses q used lo hi := by
  obtain ⟨lo, hlo, hmin⟩ := used.exists_min_image (c.candidate · q) hused
  obtain ⟨hi, hhi, hmax⟩ := used.exists_max_image (c.candidate · q) hused
  refine ⟨lo, hi, hlo, hhi, hmin, hmax, ?_, ?_⟩
  · rw [Nat.le_div_iff_mul_le hused.card_pos, Nat.mul_comm, ← Nat.nsmul_eq_mul]
    exact used.card_nsmul_le_sum _ _ hmin
  · refine Nat.div_le_of_le_mul ?_
    rw [← Nat.nsmul_eq_mul]
    exact used.sum_le_card_nsmul _ _ hmax

/-- A set cannot be counted only because the sum of the candidates overflows. -/
theorem Tally.add_error {t : Tally} {set : ClauseSet} {p : Nat} {f : Fault}
    (hadd : t.add set p = .error f) :
    ∃ n, set.nextLength? = some n ∧ set.period = p ∧ Word.bound ≤ t.lengthSum + n := by
  unfold add at hadd
  split at hadd
  · cases hadd
  · rename_i n hn
    dsimp only at hadd
    split at hadd
    · rename_i hperiod
      cases hsum : Word.add t.lengthSum n with
      | ok sum =>
        rw [hsum] at hadd
        cases hadd
      | error e => exact ⟨n, hn, hperiod, (Word.add_eq_error_iff.1 hsum).2⟩
    · cases hadd

variable {σ : Type}

namespace Runner

variable {r : Runner σ} {E : Engine σ} {s : Shared} {b : Boundary} {t : Tally}

/-- Averaging succeeds if the sum of the candidates is a word. -/
theorem step_averaging (hr : r.control = .boundary b) (hb : b.stage = .averaging t)
    (hid : r.worker.id < s.coordinator.numWorkers) (hc : s.coordinator.AllLogs)
    (hadaptive : r.worker.config.isAdaptive = true)
    (hmargin : s.coordinator.margin ≤ r.worker.period)
    (hpast : (s.coordinator.box r.worker.id).past.size = r.worker.period + 1)
    (ht : t.Counts s.coordinator (r.worker.importPeriod s.coordinator.margin)
      (s.coordinator.readBy r.worker.id (r.worker.importPeriod s.coordinator.margin)))
    (hsum : ∑ v ∈ insert r.worker.id
          (s.coordinator.readBy r.worker.id (r.worker.importPeriod s.coordinator.margin)),
        s.coordinator.candidate v (r.worker.importPeriod s.coordinator.margin) < Word.bound) :
    (r.step E s).1.control =
      .boundary { b with stage := .entering (r.worker.nextLength s.coordinator t) } := by
  obtain ⟨set, f, hlookup, -, hn, hf⟩ := exists_own_set hid hc hmargin hpast
  rw [Finset.sum_insert (s.coordinator.self_notMem_readBy _ _), Coordinator.candidate_of_frozen hf,
    Nat.add_comm, ← ht.lengthSum_eq] at hsum
  rw [step_boundary E s hr (by simp [hb])]
  unfold Boundary.step Boundary.stepAveraging
  rw [hb]
  dsimp only [Worker.countImports, Worker.importPeriod] at hlookup ⊢
  unfold Worker.nextLength Worker.importPeriod
  rw [if_pos hadaptive, if_pos hadaptive, Coordinator.mailbox_eq hid]
  dsimp only
  rw [hlookup, Option.bind_some, hn, Option.getD_some, Word.add_eq_ok_iff.2 ⟨rfl, hsum⟩]

/-- Reading a set succeeds if the sum of the candidates is a word. -/
theorem step_reading {offset q : Nat} (hr : r.control = .boundary b)
    (hb : b.stage = .reading offset t q) (hc : s.coordinator.AllLogs)
    (hw : r.worker.numWorkers = s.coordinator.numWorkers)
    (hholds : s.coordinator.Holds r.worker offset q)
    (ht : t.Counts s.coordinator (r.worker.importPeriod s.coordinator.margin)
      (s.coordinator.readBy r.worker.id (r.worker.importPeriod s.coordinator.margin)))
    (hsum : ∑ v ∈ insert (r.worker.neighbour offset)
          (s.coordinator.readBy r.worker.id (r.worker.importPeriod s.coordinator.margin)),
        s.coordinator.candidate v (r.worker.importPeriod s.coordinator.margin) < Word.bound) :
    ∃ stage, (r.step E s).1.control = .boundary { b with stage } := by
  have hv : r.worker.neighbour offset < s.coordinator.numWorkers := hw ▸ hholds.neighbour_lt
  have hmoved : ∃ stage p, b.step E r.toPost s = .moved stage p s := by
    unfold Boundary.step Boundary.stepReading
    rw [hb]
    dsimp only
    split
    · exact ⟨_, _, rfl⟩
    · rename_i set hset
      split
      · exact ⟨_, _, rfl⟩
      · split
        · -- the set is of the period that counts, so that its candidate is not in the sum yet
          obtain ⟨n, hn, hperiod, hover⟩ := Tally.add_error ‹_›
          have hq := ((hc _ hv).set?_spec (by rw [← Coordinator.set?_eq hv, hset])).2
          obtain rfl : q = r.worker.importPeriod s.coordinator.margin := hq.symm.trans hperiod
          have hcandidate : s.coordinator.candidate (r.worker.neighbour offset)
              (r.worker.importPeriod s.coordinator.margin) = n := by
            rw [Coordinator.candidate, hset, Option.bind_some, hn, Option.getD_some]
          rw [Finset.sum_insert hholds.notMem_readBy, hcandidate, Nat.add_comm,
            ← ht.lengthSum_eq] at hsum
          exact absurd hsum (not_lt.2 hover)
        · exact ⟨_, _, rfl⟩
  obtain ⟨stage, p, hmoved⟩ := hmoved
  rw [step_boundary E s hr (by simp [hb]), hmoved]
  exact ⟨stage, rfl⟩

end Runner

/-- What an update makes of a pace that aims at `target` conflicts: it counts a period of the given
length, and renews the average if that many conflicts have passed. It subtracts no conflicts that have
not been seen, and divides by none but a positive number of them. -/
inductive Pace.Updated (p : Pace) (target length conflicts : Nat) : Pace → Prop
  | counted (h : conflicts < p.conflictsAtRenewal + target) :
      Updated p target length conflicts { p with consumed := p.consumed + length }
  | renewed {d : Nat} (hsub : Word.sub conflicts p.conflictsAtRenewal = .ok d) (hpos : 0 < d)
      (hle : d ≤ conflicts) :
      Updated p target length conflicts { p with
        average :=
          p.smoothing * (wordToFloat (p.consumed + length) / wordToFloat d * wordToFloat target)
            + (1.0 - p.smoothing) * p.average
        consumed := 0
        conflictsAtRenewal := conflicts }

/-- The length of the next period is always defined for worker `w`, whose runner is `r`, and within the
bounds. -/
structure Exchange.DefinesLength (x : Exchange σ) (E : Engine σ) (config : Config) (w : Nat)
    (r : Runner σ) : Prop where
  /-- Once the worker has completed its set, it finds its own one of the period to import, and it is
  complete, so that there is a candidate to average. -/
  own_set : ∀ b, r.control = .boundary b → b.stage.ahead = 1 → config.margin ≤ r.worker.period →
    ∃ m set, x.shared.coordinator.mailbox w = .ok m ∧
      m.lookup (r.worker.period - config.margin) = some set ∧
      set.period = r.worker.period - config.margin ∧ set.isCompleted = true
  /-- No candidate is `0`. -/
  one_le_candidate : ∀ v < config.numWorkers, ∀ k cs n,
    x.shared.coordinator.frozen? v k = some (cs, n) → 1 ≤ n
  /-- The worker reads a set without an overflow as long as the sum of the candidates is a word. -/
  reads : ∀ b offset t k, r.control = .boundary b → b.stage = .reading offset t k →
    let c := x.shared.coordinator
    let q := r.worker.period - config.margin
    ∑ v ∈ insert (r.worker.neighbour offset) (c.readBy w q), c.candidate v q < Word.bound →
      ∃ stage, (r.step E x.shared).1.control = .boundary { b with stage }
  /-- It has counted the candidates that it has read when it averages them, -/
  counts : ∀ b t, r.control = .boundary b → b.stage = .averaging t →
    let c := x.shared.coordinator
    let q := r.worker.period - config.margin
    config.margin ≤ r.worker.period ∧ t.Counts c q (c.readBy w q)
  /-- and the next length is then the mean of these and of its own. -/
  averages : ∀ b t, r.control = .boundary b → b.stage = .averaging t →
    let c := x.shared.coordinator
    let q := r.worker.period - config.margin
    ∑ v ∈ insert w (c.readBy w q), c.candidate v q < Word.bound →
      ∃ length, (r.step E x.shared).1.control = .boundary { b with stage := .entering length } ∧
        c.Averages config w q length (insert w (c.readBy w q))
  /-- So the length of every period after the first `margin + 1` is a mean that lies between the
  smallest and the largest candidate before it is fitted to the bounds, and within the bounds after. -/
  bounded : config.margin < r.worker.period →
    let k := r.worker.period - 1 - config.margin
    ∃ used, x.shared.coordinator.Averages config w k r.worker.periodLength used ∧
      (∃ lo hi, x.shared.coordinator.Encloses k used lo hi) ∧
      1 ≤ r.worker.periodLength ∧
      (0 < config.adaptiveLower → config.adaptiveLower ≤ r.worker.periodLength) ∧
      (0 < config.adaptiveUpper → r.worker.periodLength ≤ config.adaptiveUpper)
  /-- Whatever conflicts the engine reports, an update of the worker's pace answers a candidate. -/
  updates : ∀ length conflicts,
    r.worker.pace.conflictsAtRenewal + config.adaptiveConflicts < Word.bound →
    r.worker.pace.consumed + length < Word.bound →
    ∃ pace, r.worker.pace.update length conflicts = (.ok pace.candidate, pace) ∧
      1 ≤ pace.candidate ∧
      r.worker.pace.Updated config.adaptiveConflicts length conflicts pace

/-- An update renews the average if there have been as many conflicts as the pace aims at. -/
theorem Pace.exists_updated {p : Pace} {length conflicts : Nat} (hpos : 0 < p.conflicts)
    (hdue : p.conflictsAtRenewal + p.conflicts < Word.bound)
    (hconsumed : p.consumed + length < Word.bound) :
    ∃ p', p.update length conflicts = (.ok p'.candidate, p') ∧ 1 ≤ p'.candidate ∧
      p.Updated p.conflicts length conflicts p' := by
  rcases p.update_cases hpos length conflicts hdue with ⟨hover, -⟩ | ⟨-, p', hupdate, hcases⟩
  · omega
  · refine ⟨p', hupdate, p'.one_le_candidate, ?_⟩
    rcases hcases with ⟨hearly, rfl⟩ | ⟨d, hd, hle, rfl⟩
    · exact .counted hearly
    · exact .renewed hd (by omega) ((Word.sub_eq_ok_iff.1 hd).1 ▸ Nat.sub_le _ _)

namespace Exchange.Standing

variable {config : Config} {x : Exchange σ} {w : Nat} {r : Runner σ} {b : Boundary} {t : Tally}
  (h : x.Standing config)
include h

theorem importPeriod_eq (r : Runner σ) :
    r.worker.importPeriod x.shared.coordinator.margin = r.worker.period - config.margin := by
  rw [h.margin_eq]
  rfl

variable (hr : x.runners[w]? = some r)
include hr

/-- A worker that has completed its set finds its own one of the period to import. -/
theorem exists_own_set (hb : r.control = .boundary b) (hahead : b.stage.ahead = 1)
    (hm : config.margin ≤ r.worker.period) :
    ∃ m set, x.shared.coordinator.mailbox w = .ok m ∧
      m.lookup (r.worker.period - config.margin) = some set ∧
      set.period = r.worker.period - config.margin ∧ set.isCompleted = true := by
  have hw := h.lt_mailboxes (h.lt_numWorkers hr)
  have hq := h.importPeriod_eq r
  obtain ⟨rfl, -, -, -, hfits⟩ := h.runner w r hr
  have hpast := (Runner.fits_boundary hfits hb rfl).2.1
  rw [hahead] at hpast
  obtain ⟨set, f, hlookup, hperiod, hn, -⟩ :=
    Runner.exists_own_set hw h.logs (by rw [h.margin_eq]; exact hm) hpast
  rw [hq] at hlookup hperiod
  refine ⟨_, set, Coordinator.mailbox_eq hw, hlookup, hperiod, ?_⟩
  rw [ClauseSet.isCompleted, hn]
  rfl

/-- A worker that averages has counted the candidates that it has read. -/
theorem counts_of_averaging (hsums : r.Sums x.shared.coordinator) (hb : r.control = .boundary b)
    (hstage : b.stage = .averaging t) :
    config.margin ≤ r.worker.period ∧
      t.Counts x.shared.coordinator (r.worker.period - config.margin)
        (x.shared.coordinator.readBy w (r.worker.period - config.margin)) := by
  have hq := h.importPeriod_eq r
  obtain ⟨rfl, -, -, -, hfits⟩ := h.runner w r hr
  obtain ⟨-, -, -, hm⟩ := Runner.fits_boundary hfits hb hstage
  have hcounts := hsums.counts b hb
  rw [hstage] at hcounts
  rw [← hq]
  exact ⟨by rw [← h.margin_eq]; exact hm, hcounts⟩

/-- Reading a set succeeds if the sum of the candidates is a word. -/
theorem exists_stage_of_reading (E : Engine σ) (hsums : r.Sums x.shared.coordinator) {offset k : Nat}
    (hb : r.control = .boundary b) (hstage : b.stage = .reading offset t k)
    (hsum : ∑ v ∈ insert (r.worker.neighbour offset)
        (x.shared.coordinator.readBy w (r.worker.period - config.margin)),
      x.shared.coordinator.candidate v (r.worker.period - config.margin) < Word.bound) :
    ∃ stage, (r.step E x.shared).1.control = .boundary { b with stage } := by
  have hq := h.importPeriod_eq r
  have hnumWorkers := h.worker_numWorkers_eq hr
  obtain ⟨rfl, -, -, -, hfits⟩ := h.runner w r hr
  obtain ⟨-, -, -, -, hholds⟩ := Runner.fits_boundary hfits hb hstage
  have hcounts := hsums.counts b hb
  rw [hstage] at hcounts
  rw [← hq] at hsum
  exact Runner.step_reading hb hstage h.logs hnumWorkers hholds hcounts hsum

/-- Averaging succeeds if the sum of the candidates is a word, and gives their mean. -/
theorem exists_length_of_averaging (E : Engine σ) (hsums : r.Sums x.shared.coordinator)
    (hadaptive : config.isAdaptive = true) (hb : r.control = .boundary b)
    (hstage : b.stage = .averaging t)
    (hsum : ∑ v ∈ insert w (x.shared.coordinator.readBy w (r.worker.period - config.margin)),
      x.shared.coordinator.candidate v (r.worker.period - config.margin) < Word.bound) :
    ∃ length, (r.step E x.shared).1.control = .boundary { b with stage := .entering length } ∧
      x.shared.coordinator.Averages config w (r.worker.period - config.margin) length
        (insert w (x.shared.coordinator.readBy w (r.worker.period - config.margin))) := by
  have hw := h.lt_mailboxes (h.lt_numWorkers hr)
  have hq := h.importPeriod_eq r
  obtain ⟨rfl, -, hconfig, -, hfits⟩ := h.runner w r hr
  obtain ⟨-, hpast, -, hm⟩ := Runner.fits_boundary hfits hb hstage
  have hcounts := hsums.counts b hb
  rw [hstage] at hcounts
  have hle : ∀ v < x.shared.coordinator.numWorkers,
      (x.shared.coordinator.box v).next r.worker.id ≤ (x.shared.coordinator.box v).completed := by
    intro v hv
    rw [h.numWorkers_eq] at hv
    exact h.next_le v hv _
  rw [← hconfig] at hadaptive
  rw [← hq] at hsum ⊢
  refine ⟨r.worker.nextLength x.shared.coordinator t, ?_, ?_⟩
  · exact Runner.step_averaging hb hstage hw h.logs hadaptive hm hpast hcounts hsum
  · rw [← hconfig]
    exact Runner.averages_of_counts hw h.logs hle hadaptive hm hpast hcounts

end Exchange.Standing

namespace Portfolio

/-- The adaptive length of periods is well defined and within its bounds, in either mode and
whatever conflicts the engines report. -/
theorem length_within_bounds (E : Engine σ) {engines : List σ} {config : Config}
    {sensors : Sensors} {p : Portfolio σ} (h : launch engines config sensors = .ok p)
    (hadaptive : 0 < config.adaptiveConflicts) (schedule : List Nat) {w : Nat} {r : Runner σ}
    (hr : (p.toExchange.follow E schedule).runners[w]? = some r) :
    (p.toExchange.follow E schedule).DefinesLength E config w r := by
  have hfresh := fresh_of_launch h
  have hisAdaptive : config.isAdaptive = true := decide_eq_true hadaptive
  have hx := hfresh.standing.follow E schedule
  have hsums := hfresh.sums_follow hisAdaptive E schedule hr
  refine ⟨fun b hb hahead hm => hx.exists_own_set hr hb hahead hm, fun v hv k cs n hf => ?_,
    fun b offset t k hb hstage => hx.exists_stage_of_reading hr E hsums hb hstage,
    fun b t hb hstage => hx.counts_of_averaging hr hsums hb hstage,
    fun b t hb hstage => hx.exists_length_of_averaging hr E hsums hisAdaptive hb hstage,
    fun hm => ?_, fun length conflicts hdue hconsumed => ?_⟩
  · rw [Coordinator.frozen?_eq (hx.lt_mailboxes hv)] at hf
    exact hfresh.one_le_candidate (one_le_periodLength_of_launch h) E schedule hv hf
  · obtain ⟨used, haverages⟩ := hsums.average (by rw [hx.margin_eq]; exact hm)
    obtain ⟨rfl, -, hconfig, -⟩ := hx.runner w r hr
    rw [hconfig, hx.margin_eq] at haverages
    refine ⟨used, haverages, Coordinator.exists_encloses _ _ ⟨_, haverages.mem⟩, ?_⟩
    rw [haverages.length_eq, ← Pace.clamp_eq]
    exact Pace.clamp_bounds (validate_of_launch h) _
  · have hconflicts := hfresh.pace_conflicts_eq E schedule hr
    rw [← hconflicts] at hadaptive hdue ⊢
    exact Pace.exists_updated hadaptive hdue hconsumed

/-- A scripted engine that runs ahead of the other one finds its own set at the end of period `1`,
although nobody else has completed a set. -/
theorem length_within_bounds_scripted : ∃ p r m set,
    launch [{ script := {} }, { script := {} }]
      { numWorkers := 2, margin := 1, periodLength := 10, nonDeterministic := true
        adaptiveConflicts := 1 } {} = .ok p ∧
    let x := p.toExchange.follow Scripted.engine (List.replicate 22 0)
    x.runners[0]? = some r ∧ r.worker.period = 1 ∧
    r.control = .boundary ⟨{ conflicts := 2, propagations := 20 }, .averaging {}⟩ ∧
    x.shared.coordinator.mailbox 0 = .ok m ∧ m.lookup 0 = some set ∧ set.isCompleted = true := by
  obtain ⟨p, hp, hcheck⟩ := exists_eq_ok_of_check
    (x := launch ([{ script := {} }, { script := {} }] : List Scripted)
      { numWorkers := 2, margin := 1, periodLength := 10, nonDeterministic := true
        adaptiveConflicts := 1 } {})
    (q := fun p =>
      let x := p.toExchange.follow Scripted.engine (List.replicate 22 0)
      x.runners[0]?.any fun r : Runner Scripted => r.worker.period == 1 &&
        r.control == .boundary ⟨{ conflicts := 2, propagations := 20 }, .averaging {}⟩)
    (by decide +kernel)
  simp only [Option.any_eq_true, Bool.and_eq_true, beq_iff_eq] at hcheck
  obtain ⟨r, hr, hperiod, hcontrol⟩ := hcheck
  have hlength := length_within_bounds Scripted.engine hp (by decide) (List.replicate 22 0) hr
  obtain ⟨m, set, hm, hlookup, -, hcompleted⟩ := hlength.own_set _ hcontrol rfl hperiod.ge
  rw [hperiod] at hlookup
  exact ⟨p, r, m, set, hp, hr, hperiod, hcontrol, hm, hlookup, hcompleted⟩

end Portfolio

end ClauseExchange
