import ClauseExchange.Proofs.Exchange.Launch
import ClauseExchange.Proofs.Report.Ranking
import Mathlib.Data.List.Induction

/-!
# The winner among a sequence of reports

The first report becomes the winner whatever it says. From then on a report competes with the winner
if it is conclusive, and an inconclusive one changes nothing. As long as nobody contradicts the
first conclusive verdict, the winner is therefore the report with the least signature among the
first report and the conclusive ones, and the order of the reports does not matter.

* `Coordinator.exists_firstLeast` says which report is the winner, for any rule by which the
  reports that compete are told from the others (`Report.Competing`).
* `Coordinator.least_report_wins` puts it together for both readings of the rule: all conclusive
  reports agree, or the first report is conclusive and those that contradict it are refused.
-/

namespace ClauseExchange

namespace Report

/-- After the report `r₀` exactly the reports that satisfy `p` compete: each of them becomes the
winner if it has a smaller signature, and no other one ever does. -/
def Competing (r₀ : Report) (p : Report → Bool) (rs : List Report) : Prop :=
  ∀ w ∈ r₀ :: rs.filter p, ∀ r ∈ rs,
    if p r then r.displaces (some w) = .ok (decide (r.signature < w.signature))
    else r.displaces (some w) ≠ .ok true

theorem Competing.of_append {r₀ : Report} {p : Report → Bool} {rs rs' : List Report}
    (h : Competing r₀ p (rs ++ rs')) : Competing r₀ p rs := fun w hw r hr => by
  refine h w ?_ r (List.mem_append_left _ hr)
  rw [List.filter_append]
  rcases List.mem_cons.1 hw with rfl | hw
  · exact List.mem_cons_self
  · exact List.mem_cons_of_mem _ (List.mem_append_left _ hw)

/-- If all conclusive reports agree, none contradicts another. -/
theorem displaces_of_agree {rs : List Report} {v : Verdict}
    (h : ∀ r ∈ rs, r.verdict.isConclusive = true → r.verdict = v) {w r : Report} (hw : w ∈ rs)
    (hr : r ∈ rs) : r.displaces (some w) =
      .ok (r.verdict.isConclusive && decide (r.signature < w.signature)) := by
  refine displaces_of_not_contradicts fun hcontra => ?_
  obtain ⟨hw', hr', hne⟩ := Verdict.contradicts_eq_true_iff.1 hcontra
  exact hne ((h w hw hw').trans (h r hr hr').symm)

/-- So the conclusive ones compete. -/
theorem competing_of_agree {r₀ : Report} {rs : List Report} {v : Verdict}
    (h : ∀ r ∈ r₀ :: rs, r.verdict.isConclusive = true → r.verdict = v) :
    Competing r₀ (·.verdict.isConclusive) rs := by
  intro w hw r hr
  have hmem : w ∈ r₀ :: rs := List.cons_subset_cons r₀ (List.filter_subset_self rs) hw
  rw [displaces_of_agree h hmem (List.mem_cons_of_mem _ hr)]
  cases hconclusive : r.verdict.isConclusive <;> simp [hconclusive]

/-- If the first report is conclusive, those with its verdict compete. -/
theorem competing_of_isConclusive {r₀ : Report} (h : r₀.verdict.isConclusive = true)
    (rs : List Report) : Competing r₀ (·.verdict = r₀.verdict) rs := by
  intro w hw r _
  have hverdict : w.verdict = r₀.verdict := by
    rcases List.mem_cons.1 hw with rfl | hw
    · rfl
    · exact of_decide_eq_true (List.mem_filter.1 hw).2
  rw [displaces_of_isConclusive (by rw [hverdict, h]), hverdict]
  by_cases hr : r.verdict = r₀.verdict
  · rw [if_pos (decide_eq_true hr), if_neg fun hcontra => hcontra.2 hr, hr, h, Bool.true_and]
  · rw [if_neg (by simpa using hr)]
    split
    · simp
    · rename_i hcontra
      have hunknown : r.verdict.isConclusive = false := by
        rw [← Bool.not_eq_true]
        exact fun hr' => hcontra ⟨hr', hr⟩
      rw [hunknown]
      simp

end Report

namespace Coordinator

/-- The coordinator after a sequence of reports. -/
def afterReports (c : Coordinator) (rs : List Report) : Coordinator :=
  rs.foldl (fun c r => (c.report r).2) c

variable {c : Coordinator} {r r₀ w : Report} {rs : List Report}

/-! ## One report -/

theorem report_of_displaces {best : Bool} (h : r.displaces c.winner? = .ok best) :
    c.report r = (.ok best, if best then { c with winner? := some r } else c) := by
  rw [report, h]
  cases best <;> rfl

theorem report_of_error {f : Fault} (h : r.displaces c.winner? = .error f) :
    c.report r = (.error f, c) := by rw [report, h]

/-- The first report is the winner. -/
theorem report_first (h : c.winner? = none) (r : Report) :
    c.report r = (.ok true, { c with winner? := some r }) :=
  report_of_displaces (by rw [h, Report.displaces])

/-- A report that does not displace the winner changes nothing. -/
theorem report_snd_of_ne (h : r.displaces c.winner? ≠ .ok true) : (c.report r).2 = c := by
  cases hr : r.displaces c.winner? with
  | error f => rw [report_of_error hr]
  | ok best =>
    rw [report_of_displaces hr]
    cases best with
    | false => rfl
    | true => exact absurd hr h

/-- An inconclusive report after the first one changes nothing. -/
theorem report_snd_of_unknown (hw : c.winner? = some w) (hr : r.verdict.isConclusive = false) :
    (c.report r).2 = c := by
  refine report_snd_of_ne ?_
  rw [hw, Report.displaces_of_not_contradicts, hr]
  · simp
  · rw [Verdict.contradicts_eq_true_iff, hr]
    simp

/-! ## A sequence of reports -/

@[simp] theorem afterReports_cons (c : Coordinator) (r : Report) (rs : List Report) :
    c.afterReports (r :: rs) = (c.report r).2.afterReports rs := rfl

theorem afterReports_append (c : Coordinator) (rs rs' : List Report) :
    c.afterReports (rs ++ rs') = (c.afterReports rs).afterReports rs' := List.foldl_append

/-- The winner is the first one of the least signature among the first report and those that
compete with it. -/
theorem exists_firstLeast (hc : c.winner? = none) {p : Report → Bool}
    (h : Report.Competing r₀ p rs) : ∃ w, c.afterReports (r₀ :: rs) = { c with winner? := some w } ∧
      w.FirstLeast (r₀ :: rs.filter p) := by
  induction rs using List.reverseRecOn with
  | nil => exact ⟨r₀, by rw [afterReports_cons, report_first hc]; rfl, .singleton r₀⟩
  | append_singleton rs r ih =>
    obtain ⟨w, hw, hleast⟩ := ih h.of_append
    have hmem : w ∈ r₀ :: (rs ++ [r]).filter p := by
      rw [List.filter_append, ← List.cons_append]
      exact List.mem_append_left _ hleast.mem
    have hdisplaces := h w hmem r (List.mem_append_right _ List.mem_cons_self)
    rw [← List.cons_append, afterReports_append, hw, afterReports_cons, List.filter_append]
    split at hdisplaces
    · -- the report competes, and wins if its signature is smaller
      rename_i hp
      rw [report_of_displaces hdisplaces, List.filter_cons_of_pos hp, List.filter_nil,
        ← List.cons_append]
      by_cases hlt : r.signature < w.signature
      · exact ⟨r, by rw [decide_eq_true hlt]; rfl, hleast.concat_of_lt hlt⟩
      · exact ⟨w, by rw [decide_eq_false hlt]; rfl, hleast.concat_of_not_lt hlt⟩
    · rename_i hp
      rw [report_snd_of_ne hdisplaces, List.filter_cons_of_neg hp, List.filter_nil, List.append_nil]
      exact ⟨w, rfl, hleast⟩

/-- Only the conclusive reports after the first one matter. -/
theorem afterReports_filter (hw : c.winner? = some w) (rs : List Report) :
    c.afterReports (rs.filter (·.verdict.isConclusive)) = c.afterReports rs := by
  induction rs generalizing c w with
  | nil => rfl
  | cons r rs ih =>
    cases hr : r.verdict.isConclusive with
    | false =>
      rw [List.filter_cons_of_neg (by simp [hr]), afterReports_cons, report_snd_of_unknown hw hr]
      exact ih hw
    | true =>
      rw [List.filter_cons_of_pos (by exact hr), afterReports_cons, afterReports_cons]
      by_cases hdisplaces : r.displaces c.winner? = .ok true
      · rw [report_of_displaces hdisplaces]
        exact ih rfl
      · rw [report_snd_of_ne hdisplaces]
        exact ih hw

theorem afterReports_cons_congr (hc : c.winner? = none) {rs' : List Report}
    (h : rs'.filter (·.verdict.isConclusive) = rs.filter (·.verdict.isConclusive)) :
    c.afterReports (r₀ :: rs') = c.afterReports (r₀ :: rs) := by
  rw [afterReports_cons, afterReports_cons, report_first hc,
    ← afterReports_filter (w := r₀) rfl rs', h, afterReports_filter (w := r₀) rfl]

/-- Reports that all have the same conclusive verdict end with the same winner in any order. -/
theorem afterReports_perm (hc : c.winner? = none) {v : Verdict} (hv : v.isConclusive = true)
    (h : ∀ r ∈ rs, r.verdict = v) {rs' : List Report} (hperm : rs'.Perm rs) :
    c.afterReports rs' = c.afterReports rs := by
  have hwinner {rs : List Report} (hrs : rs ≠ []) (h : ∀ r ∈ rs, r.verdict = v) :
      ∃ w, c.afterReports rs = { c with winner? := some w } ∧ w.FirstLeast rs := by
    obtain ⟨r₀, rs, rfl⟩ := List.exists_cons_of_ne_nil hrs
    obtain ⟨w, hw, hleast⟩ :=
      exists_firstLeast hc (Report.competing_of_agree fun r hr _ => h r hr)
    rw [List.filter_eq_self.2 fun r hr => by rw [h r (List.mem_cons_of_mem _ hr), hv]] at hleast
    exact ⟨w, hw, hleast⟩
  by_cases hnil : rs = []
  · rw [hnil] at hperm ⊢
    rw [hperm.eq_nil]
  · have h' : ∀ r ∈ rs', r.verdict = v := fun r hr => h r (hperm.mem_iff.1 hr)
    obtain ⟨w, hw, hleast⟩ := hwinner hnil h
    obtain ⟨w', hw', hleast'⟩ := hwinner (fun hnil' => hnil (by simpa [hnil'] using hperm)) h'
    have hwinner : w' = w := Report.ext ((h' w' hleast'.mem).trans (h w hleast.mem).symm)
      (hleast.signature_eq hleast' hperm)
    rw [hw, hw', hwinner]

/-- The closed form of the winner. On a fresh coordinator the first report is accepted as the
winner. If all conclusive reports have the same verdict, every report is accepted, the winner is the
first one of the least signature among the first report and the conclusive ones, and a later report
is answered by whether it is conclusive and has a smaller signature than all of these before it. If
the first report is conclusive, the reports that contradict it are refused and change nothing, all
others are accepted, and the winner is the first one of the least signature among those with its
verdict. So the order of conclusive reports of one verdict does not matter, and neither do the
inconclusive reports after the first one. -/
theorem least_report_wins {numWorkers margin periodLength : Nat}
    (h : create numWorkers margin periodLength = .ok c) (r₀ : Report) (rs : List Report) :
    (c.report r₀).1 = .ok true ∧
    ((∃ v, ∀ r ∈ r₀ :: rs, r.verdict.isConclusive = true → r.verdict = v) →
      (∃ w, c.afterReports (r₀ :: rs) = { c with winner? := some w } ∧
        w.FirstLeast (r₀ :: rs.filter (·.verdict.isConclusive))) ∧
      ∀ before r after, rs = before ++ r :: after →
        ((c.afterReports (r₀ :: before)).report r).1 = .ok (decide (r.verdict.isConclusive = true ∧
          ∀ q ∈ r₀ :: before.filter (·.verdict.isConclusive), r.signature < q.signature))) ∧
    (r₀.verdict.isConclusive = true →
      (∃ w, c.afterReports (r₀ :: rs) = { c with winner? := some w } ∧
        w.FirstLeast ((r₀ :: rs).filter (·.verdict = r₀.verdict))) ∧
      ∀ before r after, rs = before ++ r :: after →
        ((∃ f, ((c.afterReports (r₀ :: before)).report r).1 = .error f) ↔
          r.verdict.isConclusive = true ∧ r.verdict ≠ r₀.verdict) ∧
        ∀ f, ((c.afterReports (r₀ :: before)).report r).1 = .error f →
          f = .conflictingVerdicts r₀.verdict r.verdict ∧
            ((c.afterReports (r₀ :: before)).report r).2 = c.afterReports (r₀ :: before)) ∧
    ((∃ v, v.isConclusive = true ∧ ∀ r ∈ r₀ :: rs, r.verdict = v) →
      ∀ rs', rs'.Perm (r₀ :: rs) → c.afterReports rs' = c.afterReports (r₀ :: rs)) ∧
    ∀ rs', rs'.filter (·.verdict.isConclusive) = rs.filter (·.verdict.isConclusive) →
      c.afterReports (r₀ :: rs') = c.afterReports (r₀ :: rs) := by
  obtain ⟨-, -, -, hc, -⟩ := create_spec h
  refine ⟨by rw [report_first hc], fun ⟨v, hv⟩ => ?_, fun hconclusive => ?_,
    fun ⟨v, hv, hall⟩ rs' hperm => afterReports_perm hc hv hall hperm,
    fun rs' hfilter => afterReports_cons_congr hc hfilter⟩
  · refine ⟨exists_firstLeast hc (Report.competing_of_agree hv), ?_⟩
    rintro before r after rfl
    obtain ⟨w, hw, hleast⟩ := exists_firstLeast hc (Report.competing_of_agree hv).of_append
    have hmem : w ∈ r₀ :: (before ++ r :: after) := by
      rw [← List.cons_append]
      exact List.mem_append_left _
        (List.cons_subset_cons r₀ (List.filter_subset_self before) hleast.mem)
    rw [hw, report_of_displaces (Report.displaces_of_agree hv hmem (by simp)),
      Bool.decide_and, Bool.decide_eq_true, decide_eq_decide.2 hleast.lt_iff]
  · have hself : (r₀ :: rs).filter (·.verdict = r₀.verdict) =
        r₀ :: rs.filter (·.verdict = r₀.verdict) := List.filter_cons_of_pos (decide_eq_true rfl)
    rw [hself]
    refine ⟨exists_firstLeast hc (Report.competing_of_isConclusive hconclusive rs), ?_⟩
    rintro before r after rfl
    obtain ⟨w, hw, hleast⟩ :=
      exists_firstLeast hc (Report.competing_of_isConclusive hconclusive before)
    have hverdict : w.verdict = r₀.verdict := by
      rcases List.mem_cons.1 hleast.mem with rfl | hmem
      · rfl
      · exact of_decide_eq_true (List.mem_filter.1 hmem).2
    have hdisplaces := Report.displaces_of_isConclusive (r := r) (by rw [hverdict, hconclusive])
    rw [hverdict] at hdisplaces
    rw [hw]
    split at hdisplaces
    · rename_i hcontra
      rw [report_of_error hdisplaces]
      exact ⟨⟨fun _ => hcontra, fun _ => ⟨_, rfl⟩⟩, fun f hf => ⟨(Except.error.inj hf).symm, rfl⟩⟩
    · rename_i hcontra
      rw [report_of_displaces hdisplaces]
      exact ⟨⟨fun ⟨f, hf⟩ => (by cases hf), fun h => absurd h hcontra⟩, fun f hf => (by cases hf)⟩

/-- Three workers report, the best of the conclusive ones neither first nor last, after an
inconclusive report, and in two orders. -/
theorem least_report_wins_three : ∃ c, create 3 0 1 = .ok c ∧
    c.afterReports [⟨.satisfiable, ⟨4, 2⟩⟩, ⟨.unknown, ⟨0, 0⟩⟩, ⟨.satisfiable, ⟨2, 1⟩⟩,
      ⟨.unsatisfiable, ⟨1, 0⟩⟩] = { c with winner? := some ⟨.satisfiable, ⟨2, 1⟩⟩ } ∧
    c.afterReports [⟨.unknown, ⟨3, 0⟩⟩, ⟨.satisfiable, ⟨4, 2⟩⟩, ⟨.satisfiable, ⟨2, 1⟩⟩] =
      { c with winner? := some ⟨.satisfiable, ⟨2, 1⟩⟩ } ∧
    c.afterReports [⟨.satisfiable, ⟨4, 2⟩⟩, ⟨.satisfiable, ⟨2, 1⟩⟩] =
      c.afterReports [⟨.satisfiable, ⟨2, 1⟩⟩, ⟨.satisfiable, ⟨4, 2⟩⟩] := by
  obtain ⟨c, hc, -⟩ := exists_eq_ok_of_check (x := create 3 0 1) (q := fun _ => true)
    (by decide +kernel)
  refine ⟨c, hc, ?_, ?_, ?_⟩
  · obtain ⟨-, -, hrefused, -⟩ := least_report_wins hc ⟨.satisfiable, ⟨4, 2⟩⟩
      [⟨.unknown, ⟨0, 0⟩⟩, ⟨.satisfiable, ⟨2, 1⟩⟩, ⟨.unsatisfiable, ⟨1, 0⟩⟩]
    obtain ⟨⟨w, hw, hleast⟩, -⟩ := hrefused rfl
    rw [hw, hleast.eq_of_lt (r := ⟨.satisfiable, ⟨2, 1⟩⟩) (by decide) (by decide)]
  · obtain ⟨-, hagree, -⟩ := least_report_wins hc ⟨.unknown, ⟨3, 0⟩⟩
      [⟨.satisfiable, ⟨4, 2⟩⟩, ⟨.satisfiable, ⟨2, 1⟩⟩]
    obtain ⟨⟨w, hw, hleast⟩, -⟩ := hagree ⟨.satisfiable, by decide⟩
    rw [hw, hleast.eq_of_lt (r := ⟨.satisfiable, ⟨2, 1⟩⟩) (by decide) (by decide)]
  · obtain ⟨-, -, -, hperm, -⟩ := least_report_wins hc ⟨.satisfiable, ⟨2, 1⟩⟩
      [⟨.satisfiable, ⟨4, 2⟩⟩]
    exact hperm ⟨.satisfiable, rfl, by decide⟩ _ (.swap _ _ _)

end Coordinator

end ClauseExchange
