import ClauseExchange.Proofs.Coordinator.Reports

/-!
# Stop decisions

A worker that enters a period asks the coordinator whether it has to stop. With a conclusive winner
it has to stop in the periods beyond the grace window, and these periods only become more: a later
report may replace the winner by one with the same verdict and a smaller signature
(`Report.Supersedes`), and changes nothing else.

* `Report.endsPeriod_iff` says which periods a conclusive winner ends. The saturating addition plays
  no part in it, since no period is larger than the largest word.
* `Coordinator.afterReports_supersedes` follows the winner through later reports.
* `Coordinator.stop_decisions` puts it together.
-/

namespace ClauseExchange

namespace Report

variable {W W' r : Report} {margin p q : Nat}

/-! ## The periods that a winner ends -/

theorem endsPeriod_eq_true_iff : W.endsPeriod margin p = true ↔
    W.verdict.isConclusive = false ∨ min (W.signature.period + margin) Word.max < p := by
  rw [endsPeriod, Bool.or_eq_true, Bool.not_eq_true', decide_eq_true_iff, Word.satAdd]

theorem endsPeriod_mono (h : W.endsPeriod margin p = true) (hpq : p ≤ q) :
    W.endsPeriod margin q = true := by
  rw [endsPeriod_eq_true_iff] at h ⊢
  exact h.imp_right fun hp => hp.trans_le hpq

/-- A conclusive winner ends the periods beyond its grace window, also if the last period of the
window is no word. -/
theorem endsPeriod_iff (h : W.verdict.isConclusive = true) (hp : p < Word.bound) :
    W.endsPeriod margin p = true ↔ W.signature.period + margin < p := by
  rw [endsPeriod_eq_true_iff, h, Word.max]
  rw [Word.bound] at hp
  simp only [Bool.true_eq_false, false_or]
  omega

/-! ## Winners after a winner -/

/-- A report says the same as an earlier one, and it is that one or has a smaller signature. -/
structure Supersedes (W' W : Report) : Prop where
  verdict_eq : W'.verdict = W.verdict
  eq_or_lt : W' = W ∨ W'.signature < W.signature

namespace Supersedes

theorem refl (W : Report) : W.Supersedes W := ⟨rfl, .inl rfl⟩

theorem trans {W'' : Report} (h' : W''.Supersedes W') (h : W'.Supersedes W) : W''.Supersedes W where
  verdict_eq := h'.verdict_eq.trans h.verdict_eq
  eq_or_lt := by
    rcases h'.eq_or_lt with rfl | hlt'
    · exact h.eq_or_lt
    · rcases h.eq_or_lt with rfl | hlt
      · exact .inr hlt'
      · exact .inr (Signature.lt_trans hlt' hlt)

theorem period_le (h : W'.Supersedes W) : W'.signature.period ≤ W.signature.period := by
  rcases h.eq_or_lt with rfl | hlt
  · exact le_rfl
  · rw [Signature.lt_iff] at hlt
    omega

/-- A period that was over stays over. -/
theorem endsPeriod (h : W'.Supersedes W) (hp : W.endsPeriod margin p = true) :
    W'.endsPeriod margin p = true := by
  have hperiod := h.period_le
  rw [endsPeriod_eq_true_iff] at hp ⊢
  rw [h.verdict_eq]
  exact hp.imp_right fun hp => by omega

end Supersedes

end Report

namespace Coordinator

variable {c : Coordinator} {W : Report}

theorem shouldTerminate_eq (h : c.winner? = some W) (p : Nat) :
    c.shouldTerminate p = W.endsPeriod c.margin p := by rw [shouldTerminate, h]

theorem shouldTerminate_mono {p q : Nat} (hpq : p ≤ q) (h : c.shouldTerminate p = true) :
    c.shouldTerminate q = true := by
  cases hwinner : c.winner? with
  | none =>
    rw [shouldTerminate, hwinner] at h
    cases h
  | some W =>
    rw [shouldTerminate_eq hwinner] at h ⊢
    exact Report.endsPeriod_mono h hpq

@[simp] theorem report_snd_margin (c : Coordinator) (r : Report) :
    (c.report r).2.margin = c.margin := by
  unfold report
  split <;> rfl

@[simp] theorem afterReports_margin (c : Coordinator) (rs : List Report) :
    (c.afterReports rs).margin = c.margin := by
  induction rs generalizing c with
  | nil => rfl
  | cons r rs ih => rw [afterReports_cons, ih, report_snd_margin]

/-- What one more report makes of a conclusive winner. A report that contradicts it is refused, so
the verdict stays. -/
theorem report_supersedes (hw : c.winner? = some W) (hconclusive : W.verdict.isConclusive = true)
    (r : Report) : ∃ W', (c.report r).2.winner? = some W' ∧ W'.Supersedes W := by
  by_cases hdisplaces : r.displaces c.winner? = .ok true
  · refine ⟨r, by rw [report_of_displaces hdisplaces]; rfl, ?_⟩
    rw [hw, Report.displaces_of_isConclusive hconclusive] at hdisplaces
    split at hdisplaces
    · cases hdisplaces
    · rename_i hagree
      obtain ⟨hr, hlt⟩ := (Bool.and_eq_true _ _).mp (Except.ok.inj hdisplaces)
      exact ⟨not_not.1 fun hne => hagree ⟨hr, hne⟩, .inr (of_decide_eq_true hlt)⟩
  · exact ⟨W, by rw [report_snd_of_ne hdisplaces, hw], .refl W⟩

/-- What any later reports make of a conclusive winner. -/
theorem afterReports_supersedes (hw : c.winner? = some W)
    (hconclusive : W.verdict.isConclusive = true) (rs : List Report) :
    ∃ W', (c.afterReports rs).winner? = some W' ∧ W'.Supersedes W := by
  induction rs using List.reverseRecOn with
  | nil => exact ⟨W, hw, .refl W⟩
  | append_singleton rs r ih =>
    obtain ⟨W', hw', hsup⟩ := ih
    obtain ⟨W'', hw'', hsup'⟩ :=
      report_supersedes hw' (by rw [hsup.verdict_eq, hconclusive]) r
    rw [afterReports_append]
    exact ⟨W'', hw'', hsup'.trans hsup⟩

/-- Stop decisions after any reports, refused ones included. If a worker has to stop in some period,
then also in every later one. With a conclusive winner it has to stop exactly beyond the period of
the winner plus the margin, and if that sum is no word nobody has to stop. Whatever is reported
later, the winner then keeps its verdict and only gets a smaller signature, so who has to stop at
some time has to stop at all later times. Without a winner nobody has to stop, and with an
inconclusive one everybody. -/
theorem stop_decisions {numWorkers margin periodLength : Nat}
    (h : create numWorkers margin periodLength = .ok c) (rs : List Report) :
    let d := c.afterReports rs
    (∀ p q, p ≤ q → d.shouldTerminate p = true → d.shouldTerminate q = true) ∧
    (d.winner? = none → ∀ p, d.shouldTerminate p = false) ∧
    (∀ W, d.winner? = some W → W.verdict.isConclusive = false → ∀ p, d.shouldTerminate p = true) ∧
    ∀ W, d.winner? = some W → W.verdict.isConclusive = true →
      (∀ p < Word.bound, d.shouldTerminate p = true ↔ W.signature.period + margin < p) ∧
      (Word.max ≤ W.signature.period + margin → ∀ p < Word.bound, d.shouldTerminate p = false) ∧
      ∀ later, let d' := d.afterReports later
        (∃ W', d'.winner? = some W' ∧ W'.verdict = W.verdict ∧
          (W' = W ∨ W'.signature < W.signature)) ∧
        ∀ p, d.shouldTerminate p = true → d'.shouldTerminate p = true := by
  obtain ⟨-, hmargin, -, -, -⟩ := create_spec h
  intro d
  have hd : d.margin = margin := by rw [afterReports_margin, hmargin]
  refine ⟨fun p q hpq hp => shouldTerminate_mono hpq hp, fun hnone p => by rw [shouldTerminate, hnone],
    fun W hw hunknown p => ?_, fun W hw hconclusive => ?_⟩
  · rw [shouldTerminate_eq hw, Report.endsPeriod, hunknown]
    rfl
  · have hexact : ∀ p < Word.bound,
        (d.shouldTerminate p = true ↔ W.signature.period + margin < p) := fun p hp => by
      rw [shouldTerminate_eq hw, hd, Report.endsPeriod_iff hconclusive hp]
    refine ⟨hexact, fun hlarge p hp => ?_, fun later => ?_⟩
    · rw [← Bool.not_eq_true, hexact p hp]
      rw [Word.bound] at hp
      rw [Word.max] at hlarge
      omega
    · obtain ⟨W', hw', hsup⟩ := afterReports_supersedes hw hconclusive later
      refine ⟨⟨W', hw', hsup.verdict_eq, hsup.eq_or_lt⟩, fun p hp => ?_⟩
      rw [shouldTerminate_eq hw] at hp
      rw [shouldTerminate_eq hw', afterReports_margin]
      exact hsup.endsPeriod hp

/-- An inconclusive first report stops everybody. A conclusive one takes over, with a grace window of
20 periods; later a contradicting report is refused, and a better one narrows the window. -/
theorem stop_decisions_four : ∃ c, create 4 20 1000 = .ok c ∧
    (c.afterReports [⟨.unknown, ⟨100, 3⟩⟩]).shouldTerminate 0 = true ∧
    let d := c.afterReports [⟨.unknown, ⟨100, 3⟩⟩, ⟨.satisfiable, ⟨50, 1⟩⟩]
    d.shouldTerminate 70 = false ∧ d.shouldTerminate 71 = true ∧ d.shouldTerminate 500 = true ∧
      (d.afterReports [⟨.unsatisfiable, ⟨10, 0⟩⟩, ⟨.satisfiable, ⟨40, 2⟩⟩]).shouldTerminate 71 = true := by
  obtain ⟨c, hc, -⟩ := exists_eq_ok_of_check (x := create 4 20 1000) (q := fun _ => true)
    (by decide +kernel)
  obtain ⟨-, -, hunknown, -⟩ := stop_decisions hc [⟨.unknown, ⟨100, 3⟩⟩]
  obtain ⟨hmono, -, -, hconclusive⟩ :=
    stop_decisions hc [⟨.unknown, ⟨100, 3⟩⟩, ⟨.satisfiable, ⟨50, 1⟩⟩]
  have hnone : c.winner? = none := (create_spec hc).2.2.2.1
  have hfirst : c.afterReports [⟨.unknown, ⟨100, 3⟩⟩] =
      { c with winner? := some ⟨.unknown, ⟨100, 3⟩⟩ } := by
    rw [afterReports_cons, report_first hnone]
    rfl
  have hsecond : (c.afterReports [⟨.unknown, ⟨100, 3⟩⟩, ⟨.satisfiable, ⟨50, 1⟩⟩]).winner? =
      some ⟨.satisfiable, ⟨50, 1⟩⟩ := by
    rw [afterReports_cons, report_first hnone]
    rfl
  obtain ⟨hexact, -, hlater⟩ := hconclusive _ hsecond rfl
  have hover : (c.afterReports [⟨.unknown, ⟨100, 3⟩⟩, ⟨.satisfiable, ⟨50, 1⟩⟩]).shouldTerminate 71 =
      true := (hexact 71 (by decide)).2 (by decide)
  refine ⟨c, hc, hunknown _ (by rw [hfirst]) rfl 0, ?_, hover, hmono 71 500 (by decide) hover,
    (hlater _).2 71 hover⟩
  rw [← Bool.not_eq_true, hexact 70 (by decide)]
  decide

end Coordinator

end ClauseExchange
