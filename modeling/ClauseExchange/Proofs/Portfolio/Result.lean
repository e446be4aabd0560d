import ClauseExchange.Engine.Scripted
import ClauseExchange.Proofs.Exchange.Winner
import ClauseExchange.Proofs.Portfolio.Moves

/-!
# The result of a portfolio

When all workers have left, the result is put together from four accounts: the winner that the
coordinator has kept, the periods that the workers have counted, the statistics that they have
handed in, and the order in which the host collects these. `PortfolioResult.IsCoherent` says that
the four agree.

A contradiction between two verdicts is noticed only by comparing a report with the winner of the
moment. So a worker that gives up and reports first can hide it.

* `Portfolio.coherent` says that the accounts agree after every interleaving, and what the host
  comes to if a worker, the winning engine or the host itself breaks a rule.
* `Portfolio.logged_totals_overflow` is a run in which the host breaks a rule, and no worker.
* `Portfolio.contradiction_hidden` says which contradictions a result can hide, and
  `Portfolio.contradicted_verdict` that it can.
-/

namespace ClauseExchange

variable {σ : Type}

/-- Worker `i` has left because a rule was broken. -/
def Exchange.HasPanicked (x : Exchange σ) (i : Nat) : Prop :=
  ∃ r f, x.runners[i]? = some r ∧ r.control = .panicked f

/-- The engine of a conclusive winner, asked for its assignment, fails. -/
def Exchange.FailsToShow (E : Engine σ) (x : Exchange σ) (f : Fault) : Prop :=
  ∃ W r, x.shared.coordinator.winner? = some W ∧ W.verdict.isConclusive = true ∧
    x.runners[W.signature.worker]? = some r ∧ E.model r.engine = .error f

/-! ## Collecting -/

namespace Portfolio

variable {p : Portfolio σ}

theorem firstPanicked_eq_none_iff : p.firstPanicked = none ↔ ∀ i, ¬ p.HasPanicked i := by
  unfold firstPanicked
  rw [List.findIdx?_eq_none_iff]
  constructor
  · rintro h i ⟨r, f, hr, hcontrol⟩
    have := h r (Array.mem_toList_iff.2 (Array.mem_of_getElem? hr))
    rw [hcontrol] at this
    cases this
  · intro h r hr
    obtain ⟨i, hi⟩ := Array.getElem?_of_mem (Array.mem_toList_iff.1 hr)
    split
    · exact absurd ⟨r, _, hi, ‹_›⟩ (h i)
    · rfl

theorem firstPanicked_eq_some {k : Nat} (h : p.firstPanicked = some k) :
    p.HasPanicked k ∧ ∀ j < k, ¬ p.HasPanicked j := by
  obtain ⟨hk, hpanicked, hbefore⟩ := List.findIdx?_eq_some_iff_getElem.1 h
  have hk' : k < p.runners.size := by simpa using hk
  refine ⟨?_, fun j hj hearlier => ?_⟩
  · split at hpanicked
    · exact ⟨_, _, Array.getElem?_eq_getElem hk', by simpa using ‹_›⟩
    · cases hpanicked
  · obtain ⟨r, f, hr, hcontrol⟩ := hearlier
    obtain ⟨hj', rfl⟩ := Array.getElem?_eq_some_iff.1 hr
    have hnot := hbefore j hj
    rw [Array.getElem_toList, hcontrol] at hnot
    exact hnot rfl

theorem winningEngine?_eq_some_iff {e : σ} : p.winningEngine? = some e ↔
    ∃ W r, p.shared.coordinator.winner? = some W ∧ W.verdict.isConclusive = true ∧
      p.runners[W.signature.worker]? = some r ∧ r.engine = e := by
  simp [winningEngine?, Option.bind_eq_some_iff]

/-- What the host is shown fails only with the winning engine. -/
theorem winningModel_eq_error_iff {E : Engine σ} {f : Fault} :
    p.winningModel E = .error f ↔ p.FailsToShow E f := by
  unfold winningModel
  cases he : p.winningEngine? with
  | none =>
    refine iff_of_false (by simp) ?_
    rintro ⟨W, r, hW, hconclusive, hr, -⟩
    have hsome := winningEngine?_eq_some_iff.2 ⟨W, r, hW, hconclusive, hr, rfl⟩
    rw [he] at hsome
    cases hsome
  | some e =>
    obtain ⟨W, r, hW, hconclusive, hr, rfl⟩ := winningEngine?_eq_some_iff.1 he
    refine ⟨fun hmodel => ⟨W, r, hW, hconclusive, hr, hmodel⟩, ?_⟩
    rintro ⟨W', r', hW', -, hr', hmodel⟩
    obtain rfl := Option.some.inj (hW.symm.trans hW')
    obtain rfl := Option.some.inj (hr.symm.trans hr')
    exact hmodel

/-- What workers that have all finished have handed in. -/
theorem getElem?_handedIn {l : List (Runner σ)}
    (h : ∀ r ∈ l, ∃ statistics, r.control = .finished statistics) (i : Nat) :
    (l.filterMap handedIn)[i]? = l[i]?.bind handedIn := by
  induction l generalizing i with
  | nil => rfl
  | cons r l ih =>
    obtain ⟨statistics, hcontrol⟩ := h r List.mem_cons_self
    have hr : handedIn r = some statistics := by rw [handedIn, hcontrol]
    rw [List.filterMap_cons_some hr]
    cases i with
    | zero => exact hr.symm
    | succ i => exact ih (fun q hq => h q (List.mem_cons_of_mem r hq)) i

end Portfolio

namespace Exchange

variable {E : Engine σ} {x : Exchange σ} {elapsed : Duration}

/-- The workers have all left, and none because a rule was broken. -/
structure Completed (x : Exchange σ) : Prop where
  isOver : x.isOver = true
  sound : ∀ i, ¬ x.HasPanicked i

theorem Completed.exists_statistics (h : x.Completed) {i : Nat} {r : Runner σ}
    (hr : x.runners[i]? = some r) : ∃ statistics, r.control = .finished statistics := by
  have hleft : r.control.isOver = true := by
    obtain ⟨hi, rfl⟩ := Array.getElem?_eq_some_iff.1 hr
    exact Array.all_eq_true.1 h.isOver i hi
  cases hcontrol : r.control with
  | finished statistics => exact ⟨statistics, rfl⟩
  | panicked f => exact absurd ⟨r, f, hr, hcontrol⟩ (h.sound i)
  | _ =>
    rw [hcontrol] at hleft
    cases hleft

theorem Completed.finished_eq (h : x.Completed) : x.finished = x.runners.size := by
  refine Array.countP_eq_size.2 fun r hr => ?_
  obtain ⟨i, hi⟩ := Array.getElem?_of_mem hr
  obtain ⟨statistics, hcontrol⟩ := h.exists_statistics hi
  rw [hcontrol]
  rfl

/-- Entry `i` of the statistics is what worker `i` has handed in. -/
theorem Completed.getElem?_statistics (h : x.Completed) {i : Nat} {statistics : WorkerStatistics} :
    (x.runners.toList.filterMap Portfolio.handedIn)[i]? = some statistics ↔
      ∃ r, x.runners[i]? = some r ∧ r.control = .finished statistics := by
  have hall : ∀ r ∈ x.runners.toList, ∃ statistics, r.control = .finished statistics := by
    intro r hr
    obtain ⟨i, hi⟩ := Array.getElem?_of_mem (Array.mem_toList_iff.1 hr)
    exact h.exists_statistics hi
  rw [Portfolio.getElem?_handedIn hall, Array.getElem?_toList, Option.bind_eq_some_iff]
  refine exists_congr fun r => and_congr_right fun hr => ?_
  obtain ⟨statistics', hcontrol⟩ := h.exists_statistics hr
  rw [Portfolio.handedIn, hcontrol]
  simp

theorem Completed.length_statistics (h : x.Completed) :
    (x.runners.toList.filterMap Portfolio.handedIn).length = x.runners.size := by
  rw [List.filterMap_length_eq_length.2 fun r hr => ?_, Array.length_toList]
  obtain ⟨i, hi⟩ := Array.getElem?_of_mem (Array.mem_toList_iff.1 hr)
  obtain ⟨statistics, hcontrol⟩ := h.exists_statistics hi
  rw [Portfolio.handedIn, hcontrol]
  rfl

/-- Of the workers that have broken a rule the error names the one with the least number. -/
theorem HasPanicked.outcome_eq {i : Nat} (h : x.HasPanicked i) (E : Engine σ) (elapsed : Duration) :
    ∃ k ≤ i, x.HasPanicked k ∧ (∀ j < k, ¬ x.HasPanicked j) ∧
      x.outcome E elapsed = .error (.refused (.workerPanicked k)) := by
  cases hfirst : (⟨x, .joining⟩ : Portfolio σ).firstPanicked with
  | none => exact absurd h (Portfolio.firstPanicked_eq_none_iff.1 hfirst i)
  | some k =>
    obtain ⟨hk, hbefore⟩ := Portfolio.firstPanicked_eq_some hfirst
    refine ⟨k, Nat.le_of_not_lt fun hlt => hbefore i hlt h, hk, hbefore, ?_⟩
    unfold outcome Portfolio.collect
    rw [hfirst]

/-- A result is collected from the workers, the coordinator and the winning engine, if no worker has
broken a rule. -/
theorem outcome_eq_ok {result : PortfolioResult} (h : x.outcome E elapsed = .ok result) :
    (∀ i, ¬ x.HasPanicked i) ∧ result.verdict = x.shared.coordinator.verdict ∧
      result.winner? = x.shared.coordinator.winner?.map (·.signature) ∧
      result.statistics = x.runners.toList.filterMap Portfolio.handedIn ∧
      (⟨x, .joining⟩ : Portfolio σ).winningModel E = .ok result.model? := by
  unfold outcome Portfolio.collect at h
  cases hfirst : (⟨x, .joining⟩ : Portfolio σ).firstPanicked with
  | some k =>
    rw [hfirst] at h
    cases h
  | none =>
    rw [hfirst] at h
    dsimp only at h
    cases hmodel : (⟨x, .joining⟩ : Portfolio σ).winningModel E with
    | error f =>
      rw [hmodel] at h
      cases h
    | ok model? =>
      rw [hmodel] at h
      obtain rfl := Except.ok.inj h
      exact ⟨Portfolio.firstPanicked_eq_none_iff.1 hfirst, rfl, rfl, rfl, rfl⟩

/-- Workers that have all finished have a result, unless the winning engine fails. -/
theorem Completed.exists_outcome (h : x.Completed) (hshown : ∀ f, ¬ x.FailsToShow E f)
    (elapsed : Duration) : ∃ result, x.outcome E elapsed = .ok result := by
  have hfirst : (⟨x, .joining⟩ : Portfolio σ).firstPanicked = none :=
    Portfolio.firstPanicked_eq_none_iff.2 h.sound
  unfold outcome Portfolio.collect
  rw [hfirst]
  dsimp only
  cases hmodel : (⟨x, .joining⟩ : Portfolio σ).winningModel E with
  | error f => exact absurd (Portfolio.winningModel_eq_error_iff.1 hmodel) (hshown f)
  | ok model? => exact ⟨_, rfl⟩

/-- The fault of the winning engine is passed on. -/
theorem FailsToShow.outcome_eq {f : Fault} (h : x.FailsToShow E f)
    (hsound : ∀ i, ¬ x.HasPanicked i) (elapsed : Duration) :
    x.outcome E elapsed = .error (.fault f) := by
  have hfirst : (⟨x, .joining⟩ : Portfolio σ).firstPanicked = none :=
    Portfolio.firstPanicked_eq_none_iff.2 hsound
  have hmodel : (⟨x, .joining⟩ : Portfolio σ).winningModel E = .error f :=
    Portfolio.winningModel_eq_error_iff.2 h
  unfold outcome Portfolio.collect
  rw [hfirst, hmodel]

end Exchange

/-! ## Coherent results -/

/-- A result tells what the workers of an exchange have done. -/
structure PortfolioResult.IsCoherent (result : PortfolioResult) (x : Exchange σ) : Prop where
  /-- There is an entry for every worker, -/
  length_eq : result.statistics.length = x.runners.size
  /-- and entry `i` is what worker `i` has handed in. -/
  entry : ∀ (i : Nat) (statistics : WorkerStatistics), result.statistics[i]? = some statistics →
    statistics.worker = i ∧ ∃ r, x.runners[i]? = some r ∧ r.control = .finished statistics
  /-- There is a winner. It has concluded as the result says, in the period of its signature. -/
  winner : ∃ V statistics, result.winner? = some V ∧
    result.statistics[V.worker]? = some statistics ∧ statistics.verdict = result.verdict ∧
    statistics.periods = V.period
  /-- Nobody has concluded with a better signature than the winner, -/
  best : ∀ (V : Signature) (j : Nat) (statistics : WorkerStatistics), result.winner? = some V →
    result.statistics[j]? = some statistics → statistics.verdict.isConclusive = true →
    ¬ (⟨statistics.periods, j⟩ : Signature) < V
  /-- and with a worse one if the winner has given up. -/
  worse : ∀ (V : Signature) (j : Nat) (statistics : WorkerStatistics), result.winner? = some V →
    result.verdict = .unknown → result.statistics[j]? = some statistics →
    statistics.verdict.isConclusive = true → V < ⟨statistics.periods, j⟩

/-- What a portfolio whose workers have all left comes to agrees with what they have done. -/
structure Exchange.Reckons (E : Engine σ) (x : Exchange σ)
    (outcome : Except Failure PortfolioResult) : Prop where
  /-- If workers have broken a rule, the least of them is named. -/
  panicked : ∀ i, x.HasPanicked i → ∃ k ≤ i, x.HasPanicked k ∧ (∀ j < k, ¬ x.HasPanicked j) ∧
    outcome = .error (.refused (.workerPanicked k))
  /-- If none has, a fault of the winning engine is passed on. -/
  unshown : (∀ i, ¬ x.HasPanicked i) → ∀ f, x.FailsToShow E f → outcome = .error (.fault f)
  /-- If there is no such fault either, there is a result, and it tells what the workers have
  done. -/
  result : (∀ i, ¬ x.HasPanicked i) → (∀ f, ¬ x.FailsToShow E f) →
    ∃ result, outcome = .ok result ∧ result.IsCoherent x

/-- Once all workers have left, `outcome` is what the portfolio comes to, whatever its host does. -/
structure Portfolio.ComesTo (E : Engine σ) (p : Portfolio σ) (elapsed : Duration)
    (outcome : Except Failure PortfolioResult) : Prop where
  /-- It comes to nothing else, -/
  only : ∀ moves, (p.after E moves).outcome? E elapsed = none ∨
    (p.after E moves).outcome? E elapsed = some outcome
  /-- it comes to it by the next look, -/
  look : ∀ moves, .lookUp ∈ moves → (p.after E moves).outcome? E elapsed = some outcome
  /-- or by finding that all workers have hung up, after the host has received what they sent, -/
  hangUp : ∀ before rest, p.runners.size ≤ before.count .receive →
    (p.after E (before ++ .hangUp :: rest)).outcome? E elapsed = some outcome
  /-- or by the notices alone, if every worker sends one. -/
  notices : (∀ i, ¬ p.HasPanicked i) → ∀ moves, p.runners.size ≤ moves.count .receive →
    (p.after E moves).outcome? E elapsed = some outcome

namespace Exchange

variable {config : Config} {E : Engine σ} {x : Exchange σ} {elapsed : Duration} {t : List Nat}
  {result : PortfolioResult}

theorem exists_of_winner? {V : Signature} (hresult : x.outcome E elapsed = .ok result)
    (hV : result.winner? = some V) :
    ∃ W, x.shared.coordinator.winner? = some W ∧ V = W.signature := by
  obtain ⟨-, -, hwinner, -, -⟩ := outcome_eq_ok hresult
  obtain ⟨W, hW, heq⟩ := Option.map_eq_some_iff.1 (hwinner.symm.trans hV)
  exact ⟨W, hW, heq.symm⟩

section Completed

variable (h : x.Fresh config) (hlength : 1 ≤ config.periodLength)
  (hdone : (x.follow E t).Completed) (hresult : (x.follow E t).outcome E elapsed = .ok result)
include h hlength hdone hresult

/-- What worker `i` hands in shows its number, its period and the verdict that it has reported. -/
theorem Fresh.of_statistics {i : Nat} {statistics : WorkerStatistics}
    (hi : result.statistics[i]? = some statistics) :
    statistics.worker = i ∧ ∃ r, (x.follow E t).runners[i]? = some r ∧
      r.control = .finished statistics ∧ statistics.periods = r.worker.period := by
  obtain ⟨-, -, -, hstatistics, -⟩ := outcome_eq_ok hresult
  rw [hstatistics] at hi
  obtain ⟨r, hr, hcontrol⟩ := hdone.getElem?_statistics.1 hi
  obtain ⟨hworker, hperiods⟩ := h.handed_follow hlength E t hr hcontrol
  exact ⟨hworker, r, hr, hcontrol, hperiods⟩

/-- The winner has handed in the verdict that it has reported, and the period of its signature. -/
theorem Fresh.of_winner {W : Report} (hW : (x.follow E t).shared.coordinator.winner? = some W) :
    result.winner? = some W.signature ∧ result.verdict = W.verdict ∧
      ∃ statistics, result.statistics[W.signature.worker]? = some statistics ∧
        statistics.verdict = W.verdict ∧ statistics.periods = W.signature.period := by
  obtain ⟨-, hverdict, hwinner, hstatistics, -⟩ := outcome_eq_ok hresult
  obtain ⟨r, hr, hperiod, hreported⟩ := (h.ranked_follow E t).winner W hW
  obtain ⟨statistics, hcontrol⟩ := hdone.exists_statistics hr
  rw [hcontrol] at hreported
  have hi : result.statistics[W.signature.worker]? = some statistics := by
    rw [hstatistics]
    exact hdone.getElem?_statistics.2 ⟨r, hr, hcontrol⟩
  obtain ⟨-, q, hq, -, hperiods⟩ := h.of_statistics hlength hdone hresult hi
  obtain rfl := Option.some.inj (hr.symm.trans hq)
  refine ⟨by rw [hwinner, hW]; rfl, ?_, statistics, hi, hreported, hperiods.trans hperiod⟩
  rw [hverdict, Coordinator.verdict, hW]

/-- No worker has concluded with a better signature than the winner. -/
theorem Fresh.not_lt_winner {V : Signature} {j : Nat} {statistics : WorkerStatistics}
    (hV : result.winner? = some V) (hj : result.statistics[j]? = some statistics)
    (hconclusive : statistics.verdict.isConclusive = true) :
    ¬ (⟨statistics.periods, j⟩ : Signature) < V := by
  obtain ⟨W, hW, rfl⟩ := exists_of_winner? hresult hV
  obtain ⟨-, r, hr, hcontrol, hperiods⟩ := h.of_statistics hlength hdone hresult hj
  obtain ⟨W', hW', hnot⟩ :=
    (h.ranked_follow E t).reported j r statistics.verdict hr (by rw [hcontrol]; rfl)
  obtain rfl := Option.some.inj (hW.symm.trans hW')
  rw [hperiods]
  exact hnot hconclusive

/-- The result of workers that have all finished is coherent. -/
theorem Fresh.isCoherent (hpos : 0 < config.numWorkers) : result.IsCoherent (x.follow E t) where
  length_eq := by
    obtain ⟨-, -, -, hstatistics, -⟩ := outcome_eq_ok hresult
    rw [hstatistics]
    exact hdone.length_statistics
  entry i statistics hi := by
    obtain ⟨hworker, r, hr, hcontrol, -⟩ := h.of_statistics hlength hdone hresult hi
    exact ⟨hworker, r, hr, hcontrol⟩
  winner := by
    -- the first worker has reported, so there is a winner
    obtain ⟨r, hr⟩ := (h.standing.follow E t).exists_runner hpos
    obtain ⟨statistics, hcontrol⟩ := hdone.exists_statistics hr
    obtain ⟨W, hW, -⟩ :=
      (h.ranked_follow E t).reported 0 r statistics.verdict hr (by rw [hcontrol]; rfl)
    obtain ⟨hV, hverdict, entry, hentry, hconcluded, hperiods⟩ :=
      h.of_winner hlength hdone hresult hW
    exact ⟨W.signature, entry, hV, hentry, hconcluded.trans hverdict.symm, hperiods⟩
  best V j statistics hV hj := h.not_lt_winner hlength hdone hresult hV hj
  worse V j statistics hV hgave hj hconclusive := by
    refine Signature.lt_of_not_lt_of_ne
      (h.not_lt_winner hlength hdone hresult hV hj hconclusive) ?_
    rintro rfl
    -- the winner itself has given up
    obtain ⟨W, hW, heq⟩ := exists_of_winner? hresult hV
    obtain ⟨-, hverdict, entry, hentry, hconcluded, -⟩ := h.of_winner hlength hdone hresult hW
    rw [← heq] at hentry
    obtain rfl := Option.some.inj (hj.symm.trans hentry)
    rw [hconcluded, ← hverdict, hgave] at hconclusive
    cases hconclusive

/-- A verdict that contradicts the result has a worse signature than a worker that has given up. -/
theorem Fresh.hidden {j : Nat} {statistics : WorkerStatistics}
    (hj : result.statistics[j]? = some statistics)
    (hcontra : result.verdict.contradicts statistics.verdict = true) :
    ∃ V u entry, result.winner? = some V ∧ result.statistics[u]? = some entry ∧
      entry.verdict = .unknown ∧ V < ⟨entry.periods, u⟩ ∧
      (⟨entry.periods, u⟩ : Signature) < ⟨statistics.periods, j⟩ := by
  have hranked := h.ranked_follow E t
  obtain ⟨-, -, -, hstatistics, -⟩ := outcome_eq_ok hresult
  obtain ⟨-, r, hr, hcontrol, hperiods⟩ := h.of_statistics hlength hdone hresult hj
  have hreported : r.control.reported? = some statistics.verdict := by
    rw [hcontrol]
    rfl
  obtain ⟨W, hW, -⟩ := hranked.reported j r statistics.verdict hr hreported
  obtain ⟨hV, hverdict, -⟩ := h.of_winner hlength hdone hresult hW
  rw [hverdict] at hcontra
  obtain ⟨u, q, hq, hgave, hlt, hlt'⟩ := hranked.hidden j r _ W hr hreported hW hcontra
  obtain ⟨entry, hentry⟩ := hdone.exists_statistics hq
  have hu : result.statistics[u]? = some entry := by
    rw [hstatistics]
    exact hdone.getElem?_statistics.2 ⟨q, hq, hentry⟩
  obtain ⟨-, q', hq', -, hperiods'⟩ := h.of_statistics hlength hdone hresult hu
  obtain rfl := Option.some.inj (hq.symm.trans hq')
  rw [hentry] at hgave
  refine ⟨W.signature, u, entry, hV, hu, hgave, ?_, ?_⟩
  · rw [hperiods']
    exact hlt
  · rw [hperiods, hperiods']
    exact hlt'

end Completed

/-- What the workers of an exchange come to agrees with what they have done. -/
theorem Fresh.reckons (h : x.Fresh config) (hlength : 1 ≤ config.periodLength)
    (hpos : 0 < config.numWorkers) (hover : (x.follow E t).isOver = true) :
    (x.follow E t).Reckons E ((x.follow E t).outcome E elapsed) where
  panicked i hi := hi.outcome_eq E elapsed
  unshown hsound f hf := hf.outcome_eq hsound elapsed
  result hsound hshown := by
    have hdone : (x.follow E t).Completed := ⟨hover, hsound⟩
    obtain ⟨result, hresult⟩ := hdone.exists_outcome hshown elapsed
    exact ⟨result, hresult, h.isCoherent hlength hdone hresult hpos⟩

/-- The channel does not matter. -/
theorem Reckons.withChannel {outcome : Except Failure PortfolioResult} (h : x.Reckons E outcome)
    (channel : Channel) : (x.withChannel channel).Reckons E outcome where
  panicked := h.panicked
  unshown := h.unshown
  result hsound hshown := by
    obtain ⟨result, hresult, hcoherent⟩ := h.result hsound hshown
    exact ⟨result, hresult, hcoherent.length_eq, hcoherent.entry, hcoherent.winner, hcoherent.best,
      hcoherent.worse⟩

end Exchange

/-- What the host of a settled portfolio comes to. -/
theorem Portfolio.Settled.comesTo {config : Config} {p : Portfolio σ} (h : p.Settled config)
    (E : Engine σ) (elapsed : Duration) :
    p.ComesTo E elapsed (p.toExchange.outcome E elapsed) := by
  have hjoined (moves : List Move) (hhost : (p.after E moves).host = .joining) :
      (p.after E moves).outcome? E elapsed = some (p.toExchange.outcome E elapsed) := by
    rw [h.outcome?_after, if_pos hhost]
  refine ⟨fun moves => ?_, fun moves hmem => hjoined _ (h.joins_of_lookUp E moves hmem),
    fun before rest hcount => hjoined _ (h.joins_of_hangUp E rest hcount),
    fun hsound moves hcount => hjoined _ (h.joins_of_receive E moves ?_ hcount)⟩
  · rw [h.outcome?_after]
    split
    · exact .inr rfl
    · exact .inl rfl
  · exact (Exchange.Completed.mk h.isOver hsound).finished_eq

/-! ## From the launch on -/

namespace Portfolio

variable {engines : List σ} {config : Config} {sensors : Sensors} {p : Portfolio σ}

theorem host_ne_panicked_of_launch (h : launch engines config sensors = .ok p) (f : Fault) :
    p.host ≠ .panicked f := by
  rw [(host_of_launch h).1, hostAfter]
  split <;> exact Host.noConfusion

/-- A portfolio that has a result has it from the turns of its workers, which have completed. -/
theorem completed_of_outcome? (h : launch engines config sensors = .ok p) {E : Engine σ}
    {moves : List Move} {elapsed : Duration} {result : PortfolioResult}
    (hresult : (p.after E moves).outcome? E elapsed = some (.ok result)) :
    (p.toExchange.follow E (Move.turns moves)).Completed ∧
      (p.toExchange.follow E (Move.turns moves)).outcome E elapsed = .ok result := by
  obtain ⟨channel, hq⟩ := toExchange_after (fresh_of_launch h).standing E moves
  generalize p.after E moves = q at hq hresult
  obtain ⟨y, host⟩ := q
  obtain rfl : y = (p.toExchange.follow E (Move.turns moves)).withChannel channel := hq
  unfold outcome? at hresult
  cases host with
  | waiting received => cases hresult
  | panicked f => cases hresult
  | joining =>
    dsimp only at hresult
    split at hresult
    · have houtcome : (p.toExchange.follow E (Move.turns moves)).outcome E elapsed = .ok result :=
        Option.some.inj hresult
      exact ⟨⟨‹_›, (Exchange.outcome_eq_ok houtcome).1⟩, houtcome⟩
    · cases hresult

/-- Whether a portfolio has a result that passes a check. -/
def hasResult (E : Engine σ) (elapsed : Duration) (check : PortfolioResult → Bool)
    (p : Portfolio σ) : Bool :=
  match p.outcome? E elapsed with
  | some (.ok result) => check result
  | _ => false

theorem exists_of_hasResult {E : Engine σ} {elapsed : Duration} {check : PortfolioResult → Bool}
    (h : p.hasResult E elapsed check = true) :
    ∃ result, p.outcome? E elapsed = some (.ok result) ∧ check result = true := by
  unfold hasResult at h
  split at h
  · exact ⟨_, ‹_›, h⟩
  · cases h

/-- **The result of a portfolio is coherent**, whatever the engines do and in every interleaving.

Two things can go wrong at the host although no worker breaks a rule: the totals of the progress do
not fit a word when the host looks while workers run, and the winning engine fails when it is asked
for its assignment. Unless the former happens, all that the host can come to once all workers have
left is settled by their turns, and it comes to that by the next look, by finding that they have hung
up, or by their notices. If workers have broken a rule, the least of them is named. If neither a
worker nor the winning engine has, there is a result, and it tells what the workers have done. -/
theorem coherent (E : Engine σ) {c : Coordinator} (hvalid : config.validate = .ok ())
    (hengines : engines.length = config.numWorkers)
    (hcreate : Coordinator.create config.numWorkers config.margin config.periodLength = .ok c)
    (sensors : Sensors) :
    ∃ p, launch engines config sensors = .ok p ∧ ∀ moves : List Move,
      let q := p.after E moves
      (∀ f, q.host = .panicked f ↔ ∃ before rest, moves = before ++ .lookUp :: rest ∧
        (p.after E before).FailsToLog f) ∧
      (q.isOver = true → (∀ f, q.host ≠ .panicked f) → ∀ elapsed : Duration,
        let outcome := (p.toExchange.follow E (Move.turns moves)).outcome E elapsed
        q.ComesTo E elapsed outcome ∧ q.Reckons E outcome) := by
  obtain ⟨p, hp⟩ := exists_launch hvalid hengines hcreate sensors
  have hfresh := fresh_of_launch hp
  refine ⟨p, hp, fun moves => ⟨host_eq_panicked_iff E (host_ne_panicked_of_launch hp) moves,
    fun hover hsound elapsed => ?_⟩⟩
  obtain ⟨channel, hq⟩ := toExchange_after hfresh.standing E moves
  have hreckons : (p.toExchange.follow E (Move.turns moves)).Reckons E
      ((p.toExchange.follow E (Move.turns moves)).outcome E elapsed) :=
    hfresh.reckons (one_le_periodLength_of_launch hp) (numWorkers_pos_of_launch hp)
      (by rw [hq] at hover; exact hover)
  have houtcome : (p.after E moves).toExchange.outcome E elapsed =
      (p.toExchange.follow E (Move.turns moves)).outcome E elapsed := by
    rw [hq]
    rfl
  refine ⟨?_, ?_⟩
  · rw [← houtcome]
    exact (settled_of_launch hp E hover hsound).comesTo E elapsed
  · rw [hq]
    exact hreckons.withChannel channel

/-- The second of two scripted workers gives up and leaves before the first one has started, so the
host finds that nobody runs. The first one concludes after that, and its verdict is the result. -/
theorem coherent_early_exit : ∃ p, launch
    [{ script := { concludeSteps? := some 1 } },
      { script := { concludeSteps? := some 1, verdict := .unknown } }]
      { numWorkers := 2 } {} = .ok p ∧
    let E := Scripted.engine
    let early := List.replicate 12 (.worker 1) ++ [.lookUp]
    let q := p.after E (early ++ List.replicate 12 (.worker 0))
    (p.after E early).host = .joining ∧ (p.after E early).isOver = false ∧
    ∃ result, q.outcome? E {} = some (.ok result) ∧ result.verdict = .unsatisfiable ∧
      result.winner? = some ⟨0, 0⟩ ∧ result.IsCoherent q.toExchange := by
  let engines : List Scripted := [{ script := { concludeSteps? := some 1 } },
    { script := { concludeSteps? := some 1, verdict := .unknown } }]
  let E := Scripted.engine
  let early := List.replicate 12 (Move.worker 1) ++ [.lookUp]
  let moves := early ++ List.replicate 12 (.worker 0)
  obtain ⟨p, hp, hcheck⟩ := exists_eq_ok_of_check (x := launch engines { numWorkers := 2 } {})
    (q := fun p =>
      let q := p.after E moves
      decide ((p.after E early).host = .joining) && !(p.after E early).isOver && q.isOver &&
        decide (q.host = .joining) && decide (q.firstPanicked = none) &&
        q.hasResult E {} fun result => decide (result.verdict = .unsatisfiable) &&
          decide (result.winner? = some ⟨0, 0⟩))
    (by decide +kernel)
  simp only [Bool.and_eq_true, Bool.not_eq_true', decide_eq_true_eq] at hcheck
  obtain ⟨⟨⟨⟨⟨hearly, hrunning⟩, hover⟩, hhost⟩, hnone⟩, hcheck⟩ := hcheck
  obtain ⟨p', hp', hall⟩ := coherent E (validate_of_launch hp) (show engines.length = 2 from rfl)
    (assembled_of_launch hp).create_eq {}
  obtain rfl := Except.ok.inj (hp.symm.trans hp')
  have hwell : ∀ f, (p.after E moves).host ≠ .panicked f := by
    rw [hhost]
    exact fun _ => Host.noConfusion
  obtain ⟨hcomes, hreckons⟩ := (hall moves).2 hover hwell {}
  obtain ⟨result, houtcome, hcoherent⟩ := hreckons.result (firstPanicked_eq_none_iff.1 hnone)
    fun f ⟨W, r, _, _, _, hmodel⟩ => by cases hmodel
  obtain ⟨result', hresult, hchecked⟩ := exists_of_hasResult hcheck
  simp only [Bool.and_eq_true, decide_eq_true_eq] at hchecked
  have hsame := (hcomes.only []).resolve_left fun hnone => by
    rw [after_nil, hresult] at hnone
    cases hnone
  rw [after_nil, hresult, houtcome] at hsame
  obtain rfl := Except.ok.inj (Option.some.inj hsame)
  exact ⟨p, hp, hearly, hrunning, result', hresult, hchecked.1, hchecked.2, hcoherent⟩

/-- Two scripted workers that have begun with `2 ^ 63` conflicts each conclude alike. But the host
looks after their first period, and it cannot add these up. -/
theorem logged_totals_overflow : ∃ p, launch
    (List.replicate 2 {
      script := { work := 1, concludeSteps? := some 2 }
      counters := { conflicts := 2 ^ 63 } })
      { numWorkers := 2, margin := 1, periodLength := 1 } {} = .ok p ∧
    let E := Scripted.engine
    let q := p.after E ((List.replicate 20 [.worker 0, .worker 1]).flatten ++ [.lookUp] ++
      (List.replicate 20 [.worker 0, .worker 1]).flatten)
    q.isOver = true ∧ (∀ i, ¬ q.HasPanicked i) ∧
      ∀ elapsed, q.outcome? E elapsed = some (.error (.fault .overflow)) := by
  let E := Scripted.engine
  let turns := (List.replicate 20 [Move.worker 0, .worker 1]).flatten
  obtain ⟨p, hp, hcheck⟩ := exists_eq_ok_of_check
    (x := launch (List.replicate 2 {
      script := { work := 1, concludeSteps? := some 2 }
      counters := { conflicts := 2 ^ 63 } })
      { numWorkers := 2, margin := 1, periodLength := 1 } {})
    (q := fun p =>
      let q := p.after E (turns ++ [.lookUp] ++ turns)
      q.isOver && decide (q.firstPanicked = none) && decide (q.host = .panicked .overflow))
    (by decide +kernel)
  simp only [Bool.and_eq_true, decide_eq_true_eq] at hcheck
  obtain ⟨⟨hover, hnone⟩, hhost⟩ := hcheck
  refine ⟨p, hp, hover, firstPanicked_eq_none_iff.1 hnone, fun elapsed => ?_⟩
  rw [outcome?, hhost]

/-- **A contradiction can only be hidden by a worker that gives up**: between the winner and a
worker whose verdict contradicts the result lies the signature of one that has given up. -/
theorem contradiction_hidden (E : Engine σ) (h : launch engines config sensors = .ok p)
    (moves : List Move) {elapsed : Duration} {result : PortfolioResult}
    (hresult : (p.after E moves).outcome? E elapsed = some (.ok result)) {j : Nat}
    {statistics : WorkerStatistics} (hj : result.statistics[j]? = some statistics)
    (hcontra : result.verdict.contradicts statistics.verdict = true) :
    ∃ V u entry, result.winner? = some V ∧ result.statistics[u]? = some entry ∧
      entry.verdict = .unknown ∧ V < ⟨entry.periods, u⟩ ∧
      (⟨entry.periods, u⟩ : Signature) < ⟨statistics.periods, j⟩ := by
  obtain ⟨hdone, hresult⟩ := completed_of_outcome? h hresult
  exact (fresh_of_launch h).hidden (one_le_periodLength_of_launch h) hdone hresult hj hcontra

/-- The second of three scripted workers gives up, the third one concludes with a worse signature,
and the first one, with the best signature, concludes the opposite. -/
theorem exists_contradicted : ∃ p, launch
    [{ script := { concludeSteps? := some 1 } },
      { script := { concludeSteps? := some 1, verdict := .unknown } },
      { script := { concludeSteps? := some 1, verdict := .satisfiable } }]
      { numWorkers := 3 } {} = .ok p ∧
    ∃ moves result s, (p.after Scripted.engine moves).outcome? Scripted.engine {} =
        some (.ok result) ∧
      result.verdict = .unsatisfiable ∧ result.statistics[2]? = some s ∧
      s.verdict = .satisfiable := by
  let engines : List Scripted := [{ script := { concludeSteps? := some 1 } },
    { script := { concludeSteps? := some 1, verdict := .unknown } },
    { script := { concludeSteps? := some 1, verdict := .satisfiable } }]
  let moves := List.replicate 12 (Move.worker 1) ++ List.replicate 12 (.worker 2) ++
    List.replicate 12 (.worker 0) ++ [.lookUp]
  obtain ⟨p, hp, hcheck⟩ := exists_eq_ok_of_check (x := launch engines { numWorkers := 3 } {})
    (q := fun p => (p.after Scripted.engine moves).hasResult Scripted.engine {} fun result =>
      decide (result.verdict = .unsatisfiable) &&
        result.statistics[2]?.any fun s : WorkerStatistics => decide (s.verdict = .satisfiable))
    (by decide +kernel)
  obtain ⟨result, hresult, hcheck⟩ := exists_of_hasResult hcheck
  simp only [Bool.and_eq_true, decide_eq_true_eq, Option.any_eq_true] at hcheck
  obtain ⟨hverdict, s, hs, hsat⟩ := hcheck
  exact ⟨p, hp, moves, result, s, hresult, hverdict, hs, hsat⟩

/-- In this run the worker that has given up is the second one. -/
theorem contradiction_hidden_scripted : ∃ p, launch
    [{ script := { concludeSteps? := some 1 } },
      { script := { concludeSteps? := some 1, verdict := .unknown } },
      { script := { concludeSteps? := some 1, verdict := .satisfiable } }]
      { numWorkers := 3 } {} = .ok p ∧
    ∃ moves result s, (p.after Scripted.engine moves).outcome? Scripted.engine {} =
        some (.ok result) ∧
      result.statistics[2]? = some s ∧ result.verdict.contradicts s.verdict = true ∧
      ∃ V u entry, result.winner? = some V ∧ result.statistics[u]? = some entry ∧
        entry.verdict = .unknown ∧ V < ⟨entry.periods, u⟩ ∧
        (⟨entry.periods, u⟩ : Signature) < ⟨s.periods, 2⟩ := by
  obtain ⟨p, hp, moves, result, s, hresult, hverdict, hs, hsat⟩ := exists_contradicted
  have hcontra : result.verdict.contradicts s.verdict = true := by
    rw [hverdict, hsat]
    rfl
  exact ⟨p, hp, moves, result, s, hresult, hs, hcontra,
    contradiction_hidden Scripted.engine hp moves hresult hs hcontra⟩

/-- A result can be conclusive although a worker has concluded the opposite. -/
theorem contradicted_verdict : ¬ ∀ (engines : List Scripted) (config : Config)
    (p : Portfolio Scripted) (moves : List Move) (result : PortfolioResult) (s : WorkerStatistics),
    launch engines config {} = .ok p →
    (p.after Scripted.engine moves).outcome? Scripted.engine {} = some (.ok result) →
    result.verdict.isConclusive = true → s ∈ result.statistics →
    result.verdict.contradicts s.verdict = false := by
  intro hnever
  obtain ⟨p, hp, moves, result, s, hresult, hverdict, hs, hsat⟩ := exists_contradicted
  have hclear := hnever _ _ p moves result s hp hresult (by rw [hverdict]; rfl)
    (List.mem_of_getElem? hs)
  rw [hverdict, hsat] at hclear
  cases hclear

end Portfolio

end ClauseExchange
