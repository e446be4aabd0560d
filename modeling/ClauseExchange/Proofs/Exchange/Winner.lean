import ClauseExchange.Proofs.Exchange.GraceWindow

/-!
# The winner among the reports

Engines may conclude as they like, contradict each other, or give up at any time. What a report does
is settled by the winner that it meets, and a later winner only has a better signature. So there is
a winner as soon as anything has been reported, and no conclusive report has a better signature
than the winner.

A report is compared with the winner of the moment only. A contradiction is noticed if the winner
is conclusive then; it stays hidden if the winner is `unknown` and has the better signature.
`Exchange.Ranked.hidden` says that there is no other way: between the winner and a report that
contradicts it lies the signature of a worker that has given up.

* `Runner.Step.report_cases` says that a step makes a report, or leaves all reports alone.
* `Exchange.Fresh.ranked_follow` says that the reports are ranked after every schedule.
-/

namespace ClauseExchange

/-- The verdict that has been reported, if one has. -/
def Control.reported? : Control → Option Verdict
  | .reporting _ => none
  | k => k.verdict?

namespace Control

variable {k : Control} {v v' : Verdict}

theorem eq_of_hasReported (h : k.reported? = some v) (h' : k.HasReported v') : v = v' := by
  cases k with
  | closing | handingIn | finished => exact (Option.some.inj h).symm.trans h'
  | leaving ending | signingOff ending =>
    cases ending with
    | concluded => exact (Option.some.inj h).symm.trans h'
    | broken => cases h
  | ready | searching | boundary | reporting | panicked => cases h

theorem reported?_of_verdict? (h : k.verdict? = some v) (hnot : k ≠ .reporting v) :
    k.reported? = some v := by
  cases k with
  | reporting u =>
    obtain rfl := Option.some.inj h
    exact absurd rfl hnot
  | _ => exact h

theorem verdict?_of_reported? (h : k.reported? = some v) : k.verdict? = some v := by
  cases k with
  | reporting => cases h
  | _ => exact h

theorem reported?_of_isBroken (h : k.isBroken = true) : k.reported? = none := by
  cases k with
  | leaving ending | signingOff ending =>
    cases ending with
    | concluded => cases h
    | broken => rfl
  | panicked => rfl
  | ready | searching | boundary | reporting | closing | handingIn | finished => cases h

end Control

variable {σ : Type}

/-- A step makes a report that is accepted, or it leaves the winner and all reports alone. -/
theorem Runner.Step.report_cases {r r' : Runner σ} {c c' : Coordinator} {events : List Event}
    (h : r.Step c events r' c') :
    (∃ verdict best, r.control = .reporting verdict ∧
      Report.displaces ⟨verdict, ⟨r.worker.period, r.worker.id⟩⟩ c.winner? = .ok best ∧
      r' = { r with control := .closing verdict } ∧
      c'.winner? =
        if best then some ⟨verdict, ⟨r.worker.period, r.worker.id⟩⟩ else c.winner?) ∨
    c'.winner? = c.winner? ∧ ∀ v, r'.control.reported? = some v →
      r.control.reported? = some v ∧ r'.worker.period = r.worker.period := by
  by_cases hreporting : ∃ verdict, r.control = .reporting verdict
  · obtain ⟨verdict, hr⟩ := hreporting
    rcases h.reporting_cases hr with ⟨rfl, rfl⟩ | ⟨best, hbest, rfl, rfl⟩ | ⟨⟨f, hf⟩, hbroken⟩
    · exact .inr ⟨rfl, fun v hv => ⟨hv, rfl⟩⟩
    · exact .inl ⟨verdict, best, hr, hbest, rfl, rfl⟩
    · refine .inr ⟨?_, fun v hv => ?_⟩
      · rcases h.winner_cases with heq | ⟨verdict', best, hr', hbest, -⟩
        · exact heq
        · obtain rfl := Control.reporting.inj (hr.symm.trans hr')
          rw [hf] at hbest
          cases hbest
      · rw [Control.reported?_of_isBroken hbroken] at hv
        cases hv
  · have hnot (verdict : Verdict) : r.control ≠ .reporting verdict :=
      fun hr => hreporting ⟨verdict, hr⟩
    refine .inr ⟨?_, fun v hv => ?_⟩
    · rcases h.winner_cases with heq | ⟨verdict, best, hr, -⟩
      · exact heq
      · exact absurd hr (hnot verdict)
    · rcases h.verdict_cases (Control.verdict?_of_reported? hv) with hr' | ⟨hr, hperiod⟩
      · rw [hr'] at hv
        cases hv
      · exact ⟨Control.reported?_of_verdict? hr (hnot v), hperiod⟩

namespace Exchange

/-- How the winner stands to all reports. -/
structure Ranked (x : Exchange σ) : Prop where
  /-- The winner has been reported, -/
  winner : ∀ W, x.shared.coordinator.winner? = some W → ∃ r,
    x.runners[W.signature.worker]? = some r ∧ r.worker.period = W.signature.period ∧
      r.control.HasReported W.verdict
  /-- and no conclusive report has a better signature. -/
  reported : ∀ (i : Nat) (r : Runner σ) (v : Verdict), x.runners[i]? = some r →
    r.control.reported? = some v → ∃ W, x.shared.coordinator.winner? = some W ∧
      (v.isConclusive = true → ¬ (⟨r.worker.period, i⟩ : Signature) < W.signature)
  /-- A report that contradicts the winner came after that of a worker that had given up. -/
  hidden : ∀ (i : Nat) (r : Runner σ) (v : Verdict) (W : Report), x.runners[i]? = some r →
    r.control.reported? = some v → x.shared.coordinator.winner? = some W →
      W.verdict.contradicts v = true → ∃ u q, x.runners[u]? = some q ∧
        q.control.HasReported .unknown ∧ W.signature < ⟨q.worker.period, u⟩ ∧
        (⟨q.worker.period, u⟩ : Signature) < ⟨r.worker.period, i⟩

variable {config : Config} {x : Exchange σ}

/-- What has been reported stays so. -/
theorem Standing.hasReported_turn (h : x.Standing config) (E : Engine σ) (i : Nat) {j : Nat}
    {q : Runner σ} {v : Verdict} (hq : x.runners[j]? = some q) (hv : q.control.HasReported v) :
    ∃ q', (x.turn E i).runners[j]? = some q' ∧ q'.worker.period = q.worker.period ∧
      q'.control.HasReported v := by
  rcases h.turn_cases E i with ⟨heq, -⟩ | ⟨r, r', hr, hstep, -, hrunners⟩
  · rw [heq]
    exact ⟨q, hq, rfl, hv⟩
  · rw [hrunners]
    split
    · rename_i hji
      subst hji
      obtain rfl := Option.some.inj (hq.symm.trans hr)
      have hid : q.worker.id < x.shared.coordinator.numWorkers := by
        rw [(h.runner j q hq).id_eq]
        exact h.lt_mailboxes (h.lt_numWorkers hq)
      obtain ⟨hv', hperiod, -⟩ := hstep.hasReported hid hv
      exact ⟨r', rfl, hperiod, hv'⟩
    · exact ⟨q, hq, rfl, hv⟩

/-! ### One more report -/

/-- From `x` to `y` report `ρ` is made, and nothing else is reported. -/
structure Reports (ρ : Report) (x y : Exchange σ) : Prop where
  made : ∃ r, y.runners[ρ.signature.worker]? = some r ∧ r.worker.period = ρ.signature.period ∧
    r.control.HasReported ρ.verdict
  kept : ∀ (j : Nat) (q : Runner σ) (u : Verdict), x.runners[j]? = some q →
    q.control.HasReported u → ∃ q', y.runners[j]? = some q' ∧
      q'.worker.period = q.worker.period ∧ q'.control.HasReported u
  new : ∀ (j : Nat) (q' : Runner σ) (u : Verdict), y.runners[j]? = some q' →
    q'.control.reported? = some u → ρ = ⟨u, ⟨q'.worker.period, j⟩⟩ ∨
      ∃ q, x.runners[j]? = some q ∧ q.control.reported? = some u ∧
        q'.worker.period = q.worker.period

namespace Ranked

variable {y : Exchange σ} {ρ W : Report}

theorem winner_kept (h : x.Ranked) (hρ : x.Reports ρ y)
    (hW : x.shared.coordinator.winner? = some W) : ∃ r,
      y.runners[W.signature.worker]? = some r ∧ r.worker.period = W.signature.period ∧
        r.control.HasReported W.verdict := by
  obtain ⟨q, hq, hperiod, hu⟩ := h.winner W hW
  obtain ⟨q', hq', hperiod', hu'⟩ := hρ.kept _ q _ hq hu
  exact ⟨q', hq', hperiod'.trans hperiod, hu'⟩

theorem hidden_kept (h : x.Ranked) (hρ : x.Reports ρ y)
    (hW : x.shared.coordinator.winner? = some W) {j : Nat} {q : Runner σ} {u : Verdict}
    (hq : x.runners[j]? = some q) (hu : q.control.reported? = some u)
    (hcontra : W.verdict.contradicts u = true) : ∃ z p, y.runners[z]? = some p ∧
      p.control.HasReported .unknown ∧ W.signature < ⟨p.worker.period, z⟩ ∧
      (⟨p.worker.period, z⟩ : Signature) < ⟨q.worker.period, j⟩ := by
  obtain ⟨z, p, hp, hgave, hlt, hlt'⟩ := h.hidden j q u W hq hu hW hcontra
  obtain ⟨p', hp', hperiod, hgave'⟩ := hρ.kept z p _ hp hgave
  exact ⟨z, p', hp', hgave', by rw [hperiod]; exact hlt, by rw [hperiod]; exact hlt'⟩

/-- A worker reports once, so that a conclusive report is not that of a winner that has given up. -/
theorem winner_lt_of_unknown (h : x.Ranked) (hW : x.shared.coordinator.winner? = some W)
    (hgave : W.verdict = .unknown) {j : Nat} {q : Runner σ} {u : Verdict}
    (hq : x.runners[j]? = some q) (hu : q.control.reported? = some u)
    (hconclusive : u.isConclusive = true) : W.signature < ⟨q.worker.period, j⟩ := by
  obtain ⟨W', hW', hnot⟩ := h.reported j q u hq hu
  obtain rfl := Option.some.inj (hW.symm.trans hW')
  refine Signature.lt_of_not_lt_of_ne (hnot hconclusive) fun hsame => ?_
  obtain ⟨p, hp, -, hreported⟩ := h.winner W hW
  rw [← congrArg Signature.worker hsame] at hp
  obtain rfl := Option.some.inj (hq.symm.trans hp)
  rw [Control.eq_of_hasReported hu hreported, hgave] at hconclusive
  cases hconclusive

/-- The first report wins. -/
theorem first (h : x.Ranked) (hρ : x.Reports ρ y) (hnone : x.shared.coordinator.winner? = none)
    (hwinner : y.shared.coordinator.winner? = some ρ) : y.Ranked := by
  have honly {j : Nat} {q : Runner σ} {u : Verdict} (hq : y.runners[j]? = some q)
      (hu : q.control.reported? = some u) : ρ = ⟨u, ⟨q.worker.period, j⟩⟩ := by
    refine (hρ.new j q u hq hu).resolve_right fun ⟨q₀, hq₀, hu₀, _⟩ => ?_
    obtain ⟨W, hW, -⟩ := h.reported j q₀ u hq₀ hu₀
    rw [hnone] at hW
    cases hW
  refine ⟨fun W hW => ?_, fun j q u hq hu => ⟨ρ, hwinner, fun _ => ?_⟩,
    fun j q u W hq hu hW hcontra => ?_⟩
  · obtain rfl := Option.some.inj (hwinner.symm.trans hW)
    exact hρ.made
  · rw [honly hq hu]
    exact Signature.lt_irrefl _
  · obtain rfl := Option.some.inj (hwinner.symm.trans hW)
    rw [honly hq hu] at hcontra
    exact absurd rfl (Verdict.contradicts_eq_true_iff.1 hcontra).2.2

/-- A report that does not contradict the winner, and is not better, changes nothing. -/
theorem pass (h : x.Ranked) (hρ : x.Reports ρ y) (hW : x.shared.coordinator.winner? = some W)
    (hagrees : W.verdict.contradicts ρ.verdict = false)
    (hnot : ρ.verdict.isConclusive = true → ¬ ρ.signature < W.signature)
    (hwinner : y.shared.coordinator.winner? = some W) : y.Ranked := by
  refine ⟨fun W' hW' => ?_, fun j q u hq hu => ⟨W, hwinner, fun hconclusive => ?_⟩,
    fun j q u W' hq hu hW' hcontra => ?_⟩
  · obtain rfl := Option.some.inj (hwinner.symm.trans hW')
    exact h.winner_kept hρ hW
  · rcases hρ.new j q u hq hu with rfl | ⟨q₀, hq₀, hu₀, hperiod⟩
    · exact hnot hconclusive
    · obtain ⟨W', hW', hnot'⟩ := h.reported j q₀ u hq₀ hu₀
      obtain rfl := Option.some.inj (hW.symm.trans hW')
      rw [hperiod]
      exact hnot' hconclusive
  · obtain rfl := Option.some.inj (hwinner.symm.trans hW')
    rcases hρ.new j q u hq hu with rfl | ⟨q₀, hq₀, hu₀, hperiod⟩
    · rw [hagrees] at hcontra
      cases hcontra
    · rw [hperiod]
      exact h.hidden_kept hρ hW hq₀ hu₀ hcontra

/-- A better conclusive report that does not contradict the winner takes its place. A report that
contradicts the new winner also contradicts the old one, unless that has given up. -/
theorem displace (h : x.Ranked) (hρ : x.Reports ρ y) (hW : x.shared.coordinator.winner? = some W)
    (hagrees : W.verdict.contradicts ρ.verdict = false)
    (hconclusive : ρ.verdict.isConclusive = true) (hlt : ρ.signature < W.signature)
    (hwinner : y.shared.coordinator.winner? = some ρ) : y.Ranked := by
  refine ⟨fun W' hW' => ?_, fun j q u hq hu => ⟨ρ, hwinner, fun hconclusive' => ?_⟩,
    fun j q u W' hq hu hW' hcontra => ?_⟩
  · obtain rfl := Option.some.inj (hwinner.symm.trans hW')
    exact hρ.made
  · rcases hρ.new j q u hq hu with rfl | ⟨q₀, hq₀, hu₀, hperiod⟩
    · exact Signature.lt_irrefl _
    · obtain ⟨W', hW', hnot⟩ := h.reported j q₀ u hq₀ hu₀
      obtain rfl := Option.some.inj (hW.symm.trans hW')
      rw [hperiod]
      exact Signature.not_lt_trans (hnot hconclusive') hlt
  · obtain rfl := Option.some.inj (hwinner.symm.trans hW')
    obtain ⟨-, hconclusive', hne⟩ := Verdict.contradicts_eq_true_iff.1 hcontra
    rcases hρ.new j q u hq hu with rfl | ⟨q₀, hq₀, hu₀, hperiod⟩
    · exact absurd rfl hne
    rw [hperiod]
    by_cases hgave : W.verdict = .unknown
    · obtain ⟨p, hp, hperiod', hreported⟩ := h.winner_kept hρ hW
      rw [hgave] at hreported
      refine ⟨W.signature.worker, p, hp, hreported, ?_, ?_⟩ <;> rw [hperiod']
      · exact hlt
      · exact h.winner_lt_of_unknown hW hgave hq₀ hu₀ hconclusive'
    · have heq : W.verdict = ρ.verdict := by
        by_contra hne'
        rw [Verdict.contradicts_eq_true_iff.2
          ⟨Verdict.isConclusive_iff.2 hgave, hconclusive, hne'⟩] at hagrees
        cases hagrees
      obtain ⟨z, p, hp, hreported, hlt₁, hlt₂⟩ :=
        h.hidden_kept hρ hW hq₀ hu₀ (by rw [heq]; exact hcontra)
      exact ⟨z, p, hp, hreported, Signature.lt_trans hlt hlt₁, hlt₂⟩

/-- A report that is accepted is ranked with the others. -/
theorem report (h : x.Ranked) (hρ : x.Reports ρ y) {best : Bool}
    (hbest : ρ.displaces x.shared.coordinator.winner? = .ok best)
    (hwinner : y.shared.coordinator.winner? =
      if best then some ρ else x.shared.coordinator.winner?) : y.Ranked := by
  rcases Report.displaces_eq_ok hbest with ⟨hnone, rfl⟩ | ⟨W, hW, hbetter⟩
  · exact h.first hρ hnone hwinner
  have hagrees : W.verdict.contradicts ρ.verdict = false := by
    rw [← Bool.not_eq_true]
    intro hcontra
    rw [hW, Report.displaces_of_contradicts hcontra] at hbest
    cases hbest
  cases best with
  | true =>
    obtain ⟨hconclusive, hlt⟩ := Bool.and_eq_true_iff.1 hbetter.symm
    exact h.displace hρ hW hagrees hconclusive (of_decide_eq_true hlt) hwinner
  | false =>
    refine h.pass hρ hW hagrees (fun hconclusive => ?_) (hwinner.trans hW)
    rw [hconclusive, Bool.true_and] at hbetter
    exact of_decide_eq_false hbetter.symm

end Ranked

/-- Without a new report nothing changes. -/
theorem Ranked.rest (h : x.Ranked) {y : Exchange σ}
    (hwinner : y.shared.coordinator.winner? = x.shared.coordinator.winner?)
    (hkept : ∀ (j : Nat) (q : Runner σ) (u : Verdict), x.runners[j]? = some q →
      q.control.HasReported u → ∃ q', y.runners[j]? = some q' ∧
        q'.worker.period = q.worker.period ∧ q'.control.HasReported u)
    (hold : ∀ (j : Nat) (q' : Runner σ) (u : Verdict), y.runners[j]? = some q' →
      q'.control.reported? = some u → ∃ q, x.runners[j]? = some q ∧
        q.control.reported? = some u ∧ q'.worker.period = q.worker.period) : y.Ranked := by
  refine ⟨fun W hW => ?_, fun j q' u hq' hu => ?_, fun j q' u W hq' hu hW hcontra => ?_⟩
  · obtain ⟨q, hq, hperiod, hu⟩ := h.winner W (hwinner.symm.trans hW)
    obtain ⟨q', hq', hperiod', hu'⟩ := hkept _ q _ hq hu
    exact ⟨q', hq', hperiod'.trans hperiod, hu'⟩
  · obtain ⟨q, hq, hu', hperiod⟩ := hold j q' u hq' hu
    rw [hwinner, hperiod]
    exact h.reported j q u hq hu'
  · obtain ⟨q, hq, hu', hperiod⟩ := hold j q' u hq' hu
    obtain ⟨z, p, hp, hgave, hlt, hlt'⟩ :=
      h.hidden j q u W hq hu' (hwinner.symm.trans hW) hcontra
    obtain ⟨p', hp', hperiod', hgave'⟩ := hkept z p _ hp hgave
    rw [hperiod]
    exact ⟨z, p', hp', hgave', by rw [hperiod']; exact hlt, by rw [hperiod']; exact hlt'⟩

/-- Every turn keeps the reports ranked. -/
theorem Ranked.turn (h : x.Ranked) (hx : x.Standing config) (E : Engine σ) (i : Nat) :
    (x.turn E i).Ranked := by
  rcases hx.turn_cases E i with ⟨heq, -⟩ | ⟨r, r', hr, hstep, -, hrunners⟩
  · rw [heq]
    exact h
  have hkept (j : Nat) (q : Runner σ) (u : Verdict) (hq : x.runners[j]? = some q)
      (hu : q.control.HasReported u) := hx.hasReported_turn E i hq hu
  rcases hstep.report_cases with ⟨v, best, hcontrol, hbest, rfl, hwinner⟩ | ⟨hwinner, hold⟩
  · rw [(hx.runner i r hr).id_eq] at hbest hwinner
    have hρ : x.Reports ⟨v, ⟨r.worker.period, i⟩⟩ (x.turn E i) := by
      refine ⟨⟨{ r with control := .closing v }, by rw [hrunners, if_pos rfl], rfl, rfl⟩, hkept,
        fun j q' u hq' hu => ?_⟩
      rw [hrunners] at hq'
      split at hq'
      · rename_i hji
        subst hji
        obtain rfl := Option.some.inj hq'
        obtain rfl := Option.some.inj hu
        exact .inl rfl
      · exact .inr ⟨q', hq', hu, rfl⟩
    exact h.report hρ hbest hwinner
  · refine h.rest hwinner hkept fun j q' u hq' hu => ?_
    rw [hrunners] at hq'
    split at hq'
    · rename_i hji
      subst hji
      obtain rfl := Option.some.inj hq'
      exact ⟨r, hr, hold u hu⟩
    · exact ⟨q', hq', hu, rfl⟩

/-- Before anything is reported, there is nothing to rank. -/
theorem Fresh.ranked (h : x.Fresh config) : x.Ranked := by
  have hnot {i : Nat} {r : Runner σ} {v : Verdict} (hr : x.runners[i]? = some r)
      (hv : r.control.reported? = some v) {p : Prop} : p := by
    rw [h.control_eq i r hr] at hv
    cases hv
  refine ⟨fun W hW => ?_, fun i r v hr hv => hnot hr hv, fun i r v W hr hv => hnot hr hv⟩
  rw [h.winner_eq] at hW
  cases hW

/-- What is true of every verdict that is reported is true of the winner's. -/
theorem Fresh.winner_of_reporting (h : x.Fresh config) (E : Engine σ) {p : Verdict → Prop}
    (hp : ∀ (t : List Nat) (i : Nat) (r : Runner σ) (v : Verdict),
      (x.follow E t).runners[i]? = some r → r.control = .reporting v → p v) (t : List Nat)
    {W : Report} (hW : (x.follow E t).shared.coordinator.winner? = some W) :
    p W.verdict := by
  induction t using List.reverseRecOn with
  | nil =>
    cases h.winner_eq.symm.trans hW
  | append_singleton t i ih =>
    rw [follow_concat] at hW
    rcases (h.standing.follow E t).turn_cases E i with ⟨heq, -⟩ | ⟨r, r', hr, hstep, -⟩
    · rw [heq] at hW
      exact ih hW
    · rcases hstep.report_cases with ⟨v, best, hreporting, -, -, hwinner⟩ | ⟨hwinner, -⟩
      · rw [hwinner] at hW
        split at hW
        · obtain rfl := Option.some.inj hW
          exact hp t i r v hr hreporting
        · exact ih hW
      · rw [hwinner] at hW
        exact ih hW

/-- The reports are ranked after every schedule. -/
theorem Fresh.ranked_follow (h : x.Fresh config) (E : Engine σ) (schedule : List Nat) :
    (x.follow E schedule).Ranked :=
  h.standing.invariant E h.ranked (fun _ i hy hranked => hranked.turn hy E i) schedule

end Exchange

end ClauseExchange
