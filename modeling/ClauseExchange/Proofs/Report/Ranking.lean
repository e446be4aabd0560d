import ClauseExchange.Report

/-!
# The ranking of reports

Signatures are ordered by period and then by worker, and a report displaces the winner only if its
signature is smaller. `Report.FirstLeast w rs` says that `w` is the report that wins among `rs` by
this rule: the first of those with the least signature.

* `Report.FirstLeast.concat_of_lt` and `Report.FirstLeast.concat_of_not_lt` say how the winner
  changes with one more report.
* `Report.FirstLeast.signature_eq` says that its signature does not depend on the order.
-/

namespace ClauseExchange

namespace Signature

theorem lt_iff {a b : Signature} :
    a < b ↔ a.period < b.period ∨ a.period = b.period ∧ a.worker < b.worker := Iff.rfl

theorem lt_irrefl (a : Signature) : ¬ a < a := by
  rw [lt_iff]
  omega

theorem lt_trans {a b c : Signature} (h : a < b) (h' : b < c) : a < c := by
  rw [lt_iff] at h h' ⊢
  omega

theorem lt_of_not_lt_of_ne {a b : Signature} (h : ¬ a < b) (hne : a ≠ b) : b < a := by
  obtain ⟨p, w⟩ := a
  obtain ⟨q, v⟩ := b
  rw [lt_iff] at h ⊢
  have : ¬ (p = q ∧ w = v) := by simpa using hne
  dsimp only at h ⊢
  omega

theorem not_lt_trans {a b c : Signature} (h : ¬ a < b) (h' : c < b) : ¬ a < c := by
  rw [lt_iff] at h h' ⊢
  omega

theorem lt_of_lt_of_not_lt {a b c : Signature} (h : a < b) (h' : ¬ c < b) : a < c := by
  rw [lt_iff] at h h' ⊢
  omega

theorem period_le_of_not_lt {a b : Signature} (h : ¬ a < b) : b.period ≤ a.period := by
  rw [lt_iff] at h
  omega

end Signature

namespace Verdict

theorem contradicts_eq_true_iff {v w : Verdict} :
    v.contradicts w = true ↔ v.isConclusive = true ∧ w.isConclusive = true ∧ v ≠ w := by
  cases v <;> cases w <;> decide

theorem isConclusive_iff {v : Verdict} : v.isConclusive = true ↔ v ≠ unknown := by
  cases v <;> decide

end Verdict

namespace Report

attribute [ext] Report

/-! ## Displacing the winner -/

/-- A report that is accepted is the first one, or it is compared with the winner. -/
theorem displaces_eq_ok {r : Report} {winner? : Option Report} {best : Bool}
    (h : r.displaces winner? = .ok best) :
    winner? = none ∧ best = true ∨ ∃ W, winner? = some W ∧
      best = (r.verdict.isConclusive && decide (r.signature < W.signature)) := by
  unfold displaces at h
  split at h
  · exact .inl ⟨rfl, (Except.ok.inj h).symm⟩
  · rename_i W
    split at h
    · cases h
    · exact .inr ⟨W, rfl, (Except.ok.inj h).symm⟩

/-- A report that is refused contradicts the winner. -/
theorem displaces_eq_error {r : Report} {winner? : Option Report} {f : Fault}
    (h : r.displaces winner? = .error f) :
    ∃ W, winner? = some W ∧ W.verdict.contradicts r.verdict = true := by
  unfold displaces at h
  split at h
  · cases h
  · rename_i W
    split at h
    · exact ⟨W, rfl, ‹_›⟩
    · cases h

theorem displaces_of_contradicts {r W : Report} (h : W.verdict.contradicts r.verdict = true) :
    r.displaces (some W) = .error (.conflictingVerdicts W.verdict r.verdict) := by
  rw [displaces, if_pos h]

theorem displaces_of_not_contradicts {r W : Report}
    (h : ¬ W.verdict.contradicts r.verdict = true) :
    r.displaces (some W) =
      .ok (r.verdict.isConclusive && decide (r.signature < W.signature)) := by
  rw [displaces, if_neg h]

/-- A conclusive winner refuses the reports that contradict it. -/
theorem displaces_of_isConclusive {r W : Report} (h : W.verdict.isConclusive = true) :
    r.displaces (some W) =
      if r.verdict.isConclusive = true ∧ r.verdict ≠ W.verdict then
        .error (.conflictingVerdicts W.verdict r.verdict)
      else .ok (r.verdict.isConclusive && decide (r.signature < W.signature)) := by
  split
  · rename_i hcontra
    exact displaces_of_contradicts
      (Verdict.contradicts_eq_true_iff.2 ⟨h, hcontra.1, hcontra.2.symm⟩)
  · rename_i hagree
    refine displaces_of_not_contradicts fun hcontra => ?_
    obtain ⟨-, hr, hne⟩ := Verdict.contradicts_eq_true_iff.1 hcontra
    exact hagree ⟨hr, hne.symm⟩

/-! ## The first report with the least signature -/

/-- The report `w` is the first one of a list among those with the least signature. -/
def FirstLeast (w : Report) (rs : List Report) : Prop :=
  ∃ before after, rs = before ++ w :: after ∧
    (∀ r ∈ before, w.signature < r.signature) ∧ ∀ r ∈ after, ¬ r.signature < w.signature

namespace FirstLeast

variable {w w' r : Report} {rs rs' : List Report}

theorem singleton (r : Report) : r.FirstLeast [r] := ⟨[], [], rfl, by simp, by simp⟩

theorem mem (h : w.FirstLeast rs) : w ∈ rs := by
  obtain ⟨before, after, rfl, -, -⟩ := h
  exact List.mem_append_right _ List.mem_cons_self

theorem not_lt (h : w.FirstLeast rs) (hr : r ∈ rs) : ¬ r.signature < w.signature := by
  obtain ⟨before, after, rfl, hbefore, hafter⟩ := h
  rcases List.mem_append.1 hr with hr | hr
  · intro hlt
    exact Signature.lt_irrefl _ (Signature.lt_of_lt_of_not_lt hlt
      (Signature.not_lt_trans (Signature.lt_irrefl _) (hbefore r hr)))
  · rcases List.mem_cons.1 hr with rfl | hr
    · exact Signature.lt_irrefl _
    · exact hafter r hr

/-- What is smaller than the least signature is smaller than all. -/
theorem lt_iff (h : w.FirstLeast rs) {s : Signature} :
    s < w.signature ↔ ∀ q ∈ rs, s < q.signature :=
  ⟨fun hs _ hq => Signature.lt_of_lt_of_not_lt hs (h.not_lt hq), fun hall => hall w h.mem⟩

/-- A report with a smaller signature than all others wins. -/
theorem eq_of_lt (h : w.FirstLeast rs) (hr : r ∈ rs)
    (hlt : ∀ q ∈ rs, q = r ∨ r.signature < q.signature) : w = r :=
  (hlt w h.mem).resolve_right (h.not_lt hr)

theorem concat_of_not_lt (h : w.FirstLeast rs) (hr : ¬ r.signature < w.signature) :
    w.FirstLeast (rs ++ [r]) := by
  obtain ⟨before, after, rfl, hbefore, hafter⟩ := h
  refine ⟨before, after ++ [r], by simp, hbefore, fun q hq => ?_⟩
  rcases List.mem_append.1 hq with hq | hq
  · exact hafter q hq
  · rwa [List.mem_singleton.1 hq]

theorem concat_of_lt (h : w.FirstLeast rs) (hr : r.signature < w.signature) :
    r.FirstLeast (rs ++ [r]) :=
  ⟨rs, [], rfl, h.lt_iff.1 hr, by simp⟩

/-- The least signature of two lists with the same reports is the same. -/
theorem signature_eq (h : w.FirstLeast rs) (h' : w'.FirstLeast rs') (hperm : rs'.Perm rs) :
    w'.signature = w.signature := by
  by_cases heq : w'.signature = w.signature
  · exact heq
  · have hlt := Signature.lt_of_not_lt_of_ne (h.not_lt (hperm.mem_iff.1 h'.mem)) heq
    exact absurd hlt (h'.not_lt (hperm.mem_iff.2 h.mem))

end FirstLeast

end Report

end ClauseExchange
