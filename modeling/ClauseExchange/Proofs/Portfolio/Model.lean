import ClauseExchange.Proofs.Exchange.Driven
import ClauseExchange.Proofs.Portfolio.Result

/-!
# The assignment in a result

A result shows the assignment of the engine whose report has won. The engine is looked up by the
signature of the winner, when all workers have left: it has stayed as it was when it concluded with
the verdict of the result.

Only a winner that has given up keeps its assignment back. An engine that concludes `unsatisfiable`
may still hold an assignment, and the result shows it.

* `Portfolio.model_of_winner` says whose assignment a result shows.
* `Portfolio.model_of_unsatisfiable` is a result that is unsatisfiable and shows an assignment.
-/

namespace ClauseExchange

variable {σ : Type} {E : Engine σ}

namespace Exchange

variable {config : Config} {x : Exchange σ} {elapsed : Duration} {t : List Nat}
  {result : PortfolioResult}

/-- A winner that has given up shows no assignment. -/
theorem winningModel_of_unknown (h : x.shared.coordinator.verdict = .unknown) :
    (⟨x, .joining⟩ : Portfolio σ).winningModel E = .ok none := by
  have hnone : (⟨x, .joining⟩ : Portfolio σ).winningEngine? = none := by
    refine Option.eq_none_iff_forall_ne_some.2 fun e he => ?_
    obtain ⟨W, -, hW, hconclusive, -⟩ := Portfolio.winningEngine?_eq_some_iff.1 he
    have hverdict : W.verdict = .unknown := by rwa [Coordinator.verdict, hW] at h
    rw [hverdict] at hconclusive
    cases hconclusive
  rw [Portfolio.winningModel, hnone]

theorem winningModel_of_winner {W : Report} {r : Runner σ}
    (hW : x.shared.coordinator.winner? = some W) (hconclusive : W.verdict.isConclusive = true)
    (hr : x.runners[W.signature.worker]? = some r) :
    (⟨x, .joining⟩ : Portfolio σ).winningModel E = E.model r.engine := by
  have he : (⟨x, .joining⟩ : Portfolio σ).winningEngine? = some r.engine :=
    Portfolio.winningEngine?_eq_some_iff.2 ⟨W, r, hW, hconclusive, hr, rfl⟩
  rw [Portfolio.winningModel, he]

/-- A conclusive result shows the assignment of the winner's engine, which has concluded so. -/
theorem Fresh.shows_winner (h : x.Fresh config) (hlength : 1 ≤ config.periodLength)
    (hdone : (x.follow E t).Completed) (hresult : (x.follow E t).outcome E elapsed = .ok result)
    (hconclusive : result.verdict.isConclusive = true) :
    ∃ V r statistics, result.winner? = some V ∧ (x.follow E t).runners[V.worker]? = some r ∧
      r.control = .finished statistics ∧ statistics.verdict = result.verdict ∧
      E.request r.engine = .conclude result.verdict ∧ E.model r.engine = .ok result.model? := by
  obtain ⟨-, hverdict, -, -, hmodel⟩ := outcome_eq_ok hresult
  cases hW : (x.follow E t).shared.coordinator.winner? with
  | none =>
    rw [hverdict, Coordinator.verdict, hW] at hconclusive
    cases hconclusive
  | some W =>
    obtain ⟨hV, hWverdict, statistics, hentry, hreported, -⟩ :=
      h.of_winner hlength hdone hresult hW
    obtain ⟨-, r, hr, hcontrol, -⟩ := h.of_statistics hlength hdone hresult hentry
    obtain ⟨r₀, hr₀⟩ := h.standing.exists_runner ((h.standing.follow E t).lt_numWorkers hr)
    obtain ⟨q, hq, hdrives⟩ := h.drives_follow hlength E hr₀ t
    obtain rfl := Option.some.inj (hr.symm.trans hq)
    have hsame : statistics.verdict = result.verdict := hreported.trans hWverdict.symm
    have hconcluded := (hdrives.concluded statistics.verdict (by rw [hcontrol]; rfl)).1
    refine ⟨W.signature, r, statistics, hV, hr, hcontrol, hsame, ?_, ?_⟩
    · rw [← hsame]
      exact hconcluded
    · rw [← hmodel]
      exact (winningModel_of_winner hW (by rw [← hWverdict]; exact hconclusive) hr).symm

end Exchange

namespace Portfolio

variable {engines : List σ} {config : Config} {sensors : Sensors} {p : Portfolio σ}

/-- **A result shows the assignment of the winning engine**, as it was when the engine concluded.

A portfolio without an answer shows none. If engines that find the formula unsatisfiable show none
either, then only a satisfiable result does. -/
theorem model_of_winner (E : Engine σ) (h : launch engines config sensors = .ok p)
    (moves : List Move) {elapsed : Duration} {result : PortfolioResult}
    (hresult : (p.after E moves).outcome? E elapsed = some (.ok result)) :
    (result.verdict = .unknown → result.model? = none) ∧
    (result.verdict.isConclusive = true → ∃ V r statistics, result.winner? = some V ∧
      (p.after E moves).runners[V.worker]? = some r ∧ r.control = .finished statistics ∧
      statistics.verdict = result.verdict ∧ E.request r.engine = .conclude result.verdict ∧
      E.model r.engine = .ok result.model?) ∧
    ((∀ e, E.request e = .conclude .unsatisfiable → E.model e = .ok none) →
      result.model?.isSome = true → result.verdict = .satisfiable) := by
  have hfresh := fresh_of_launch h
  obtain ⟨hdone, houtcome⟩ := completed_of_outcome? h hresult
  obtain ⟨-, hverdict, -, -, hmodel⟩ := Exchange.outcome_eq_ok houtcome
  have hunknown : result.verdict = .unknown → result.model? = none := fun hnone => by
    rw [Exchange.winningModel_of_unknown (hverdict.symm.trans hnone)] at hmodel
    exact (Except.ok.inj hmodel).symm
  have hshown := hfresh.shows_winner (one_le_periodLength_of_launch h) hdone houtcome
  refine ⟨hunknown, ?_, fun hnone hsome => ?_⟩
  · rw [runners_after hfresh.standing]
    exact hshown
  · cases hv : result.verdict with
    | satisfiable => rfl
    | unknown =>
      rw [hunknown hv] at hsome
      cases hsome
    | unsatisfiable =>
      obtain ⟨V, r, statistics, -, -, -, -, hreq, hmodel⟩ := hshown (by rw [hv]; rfl)
      rw [hv] at hreq
      rw [← Except.ok.inj ((hnone r.engine hreq).symm.trans hmodel)] at hsome
      cases hsome

/-- A scripted engine finds the formula unsatisfiable while it holds an assignment, and wins. -/
theorem exists_model_of_unsatisfiable : ∃ p, launch
    [{ script := { concludeSteps? := some 1, model? := some [1] } }] { numWorkers := 1 } {} = .ok p ∧
    ∃ moves result, (p.after Scripted.engine moves).outcome? Scripted.engine {} =
        some (.ok result) ∧
      result.verdict = .unsatisfiable ∧ result.model? = some [1] := by
  let engines : List Scripted := [{ script := { concludeSteps? := some 1, model? := some [1] } }]
  let moves := List.replicate 12 (Move.worker 0) ++ [.lookUp]
  obtain ⟨p, hp, hcheck⟩ := exists_eq_ok_of_check (x := launch engines { numWorkers := 1 } {})
    (q := fun p => (p.after Scripted.engine moves).hasResult Scripted.engine {} fun result =>
      decide (result.verdict = .unsatisfiable) && decide (result.model? = some [1]))
    (by decide +kernel)
  obtain ⟨result, hresult, hcheck⟩ := exists_of_hasResult hcheck
  simp only [Bool.and_eq_true, decide_eq_true_eq] at hcheck
  exact ⟨p, hp, moves, result, hresult, hcheck.1, hcheck.2⟩

/-- The assignment in this run is that of the engine, which has concluded `unsatisfiable`. -/
theorem model_of_winner_scripted : ∃ p, launch
    [{ script := { concludeSteps? := some 1, model? := some [1] } }] { numWorkers := 1 } {} = .ok p ∧
    ∃ moves result, (p.after Scripted.engine moves).outcome? Scripted.engine {} =
        some (.ok result) ∧
      ∃ V r, result.winner? = some V ∧
        (p.after Scripted.engine moves).runners[V.worker]? = some r ∧
        Scripted.engine.request r.engine = .conclude .unsatisfiable ∧
        Scripted.engine.model r.engine = .ok result.model? ∧ result.model? = some [1] := by
  obtain ⟨p, hp, moves, result, hresult, hverdict, hmodel⟩ := exists_model_of_unsatisfiable
  obtain ⟨-, hshown, -⟩ := model_of_winner Scripted.engine hp moves hresult
  obtain ⟨V, r, statistics, hV, hr, -, -, hreq, heq⟩ := hshown (by rw [hverdict]; rfl)
  rw [hverdict] at hreq
  exact ⟨p, hp, moves, result, hresult, V, r, hV, hr, hreq, heq, hmodel⟩

/-- A result that shows an assignment need not be satisfiable. -/
theorem model_of_unsatisfiable : ¬ ∀ (engines : List Scripted) (config : Config)
    (p : Portfolio Scripted) (moves : List Move) (result : PortfolioResult),
    launch engines config {} = .ok p →
    (p.after Scripted.engine moves).outcome? Scripted.engine {} = some (.ok result) →
    result.model?.isSome = true → result.verdict = .satisfiable := by
  intro halways
  obtain ⟨p, hp, moves, result, hresult, hverdict, hmodel⟩ := exists_model_of_unsatisfiable
  have hsat := halways _ _ p moves result hp hresult (by rw [hmodel]; rfl)
  rw [hverdict] at hsat
  cases hsat

end Portfolio

end ClauseExchange
