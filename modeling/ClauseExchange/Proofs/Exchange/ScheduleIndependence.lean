import ClauseExchange.Proofs.Exchange.Alike
import ClauseExchange.Proofs.Exchange.GraceWindow

/-!
# A run does not depend on its schedule

Two complete and orderly runs of one portfolio in the mode that waits differ in nothing but the
order of the calls: they have the same winner, and every worker does the same in both, clause for
clause and period for period. What the stopwatches show is not part of this. A worker that waits
longer in one run measures more time there, and so the times in the statistics may differ; the engines
must not go by them (`Exchange.TimesOverlooked`).

The proof follows the first run. At every moment of it each worker stands as it does at some moment
of the second run (`Exchange.Mirrored`), though not at the same one for all. When a worker takes a
step, it takes the same one at that moment of the second run, because it reads the same there:

* A set that is complete in both runs holds the same, since its producer is mirrored as well.
* A producer has left before a period in both runs or in neither.
* A worker is told to stop in both runs or in neither (`Exchange.Mirrored.shouldTerminate_eq`): the
  winner that ends its search has concluded in the other run too, and has done so in time.

`Portfolio.schedule_independent` is the result.
-/

namespace ClauseExchange

/-- What two states of a log say about a set that all complete sets precede. -/
theorem Mailbox.Grows.le_past_iff {m m' : Mailbox} (h : m.Grows m') {n : Nat}
    (hn : n ≤ m.completed) : n ≤ m.past.size ↔ n ≤ m'.past.size := by
  have hpast := h.past_le
  cases hclosed : m.isClosed with
  | true => rw [(h.closed hclosed).2]
  | false =>
    have : m.completed = m.past.size := by
      rw [completed, hclosed]
      rfl
    omega

variable {σ : Type}

theorem Runner.verdict?_eq_of_untimed {r r' : Runner σ} (h : r'.untimed = r.untimed) :
    r'.control.verdict? = r.control.verdict? := by
  have huntimed (q : Runner σ) : q.untimed.control.verdict? = q.control.verdict? := by
    obtain ⟨p, control⟩ := q
    cases control <;> rfl
  rw [← huntimed, ← huntimed r, h]

theorem Engine.Overlooks.symm {E : Engine σ} {times times' : PhaseTimes}
    (h : E.Overlooks times times') : E.Overlooks times' times := fun e w => (h e w).symm

/-- A verdict that is made known stays with a runner that breaks no rule. -/
theorem Control.HasReported.verdict?_eq {k : Control} {verdict : Verdict}
    (h : k.HasReported verdict) (hgood : k.isBroken = false) : k.verdict? = some verdict := by
  cases k with
  | closing v => exact congrArg some h
  | leaving ending =>
    cases ending with
    | concluded v => exact congrArg some h
    | broken f => cases hgood
  | signingOff ending =>
    cases ending with
    | concluded v => exact congrArg some h
    | broken f => cases hgood
  | handingIn v => exact congrArg some h
  | finished statistics => exact congrArg some h
  | panicked f => cases hgood
  | _ => exact h.elim

/-- A worker that can go on with a set finds it complete. -/
theorem Runner.frozen?_isSome_of_canStep {r : Runner σ} {c : Coordinator} {b : Boundary}
    {offset q : Nat} {t : Tally} (hr : r.control = .boundary b)
    (hb : b.stage = .reading offset t q) (hmode : r.worker.config.nonDeterministic = false)
    (h : r.canStep c = true) : (c.frozen? (r.worker.neighbour offset) q).isSome := by
  unfold canStep isOver isWaiting at h
  rw [hr] at h
  unfold Boundary.isWaiting at h
  rw [← Coordinator.any_isCompleted]
  simpa [hb, hmode, Control.isOver] using h

namespace Exchange

/-- Every worker has handed in its statistics. -/
def AllFinished (x : Exchange σ) : Prop :=
  ∀ (i : Nat) (r : Runner σ), x.runners[i]? = some r →
    ∃ statistics, r.control = .finished statistics

theorem allFinished_of_handedIn {x : Exchange σ}
    (h : x.runners.all (fun r => (Portfolio.handedIn r).isSome) = true) : x.AllFinished := by
  intro i r hr
  obtain ⟨hi, rfl⟩ := Array.getElem?_eq_some_iff.1 hr
  have hsome := Array.all_eq_true.1 h i hi
  unfold Portfolio.handedIn at hsome
  split at hsome
  · exact ⟨_, ‹_›⟩
  · cases hsome

/-- An orderly and complete run of a fresh exchange in the mode that waits, without resource
limits. -/
structure Completes (config : Config) (E : Engine σ) (x : Exchange σ) (schedule : List Nat) :
    Prop where
  fresh : x.Fresh config
  time_eq : config.limits.time = none
  memory_eq : config.limits.memory = none
  mode_eq : config.nonDeterministic = false
  orderly : x.Orderly E schedule
  finished : (x.follow E schedule).AllFinished

variable {config : Config} {E : Engine σ} {x : Exchange σ} {s s₁ s₂ t u u' : List Nat} {i v : Nat}

theorem Concluded.mono {ρ : Report} (h : x.Concluded E t ρ) (ht : t <+: s) :
    x.Concluded E s ρ := by
  obtain ⟨rest, rfl⟩ := ht
  exact h.append rest

namespace Completes

theorem standing (h : x.Completes config E s) (t : List Nat) :
    (x.follow E t).Standing config := h.fresh.standing.follow E t

theorem lagging (h : x.Completes config E s) (t : List Nat) : (x.follow E t).Lagging :=
  h.fresh.lagging_follow h.mode_eq E t

theorem judged (h : x.Completes config E s) (ht : t <+: s) : x.Judged E t := by
  have horderly := h.orderly.take t.length
  rw [← List.prefix_iff_eq_take.1 ht] at horderly
  exact h.fresh.judged h.time_eq h.memory_eq h.mode_eq horderly

theorem isOver (h : x.Completes config E s) : (x.follow E s).isOver = true := by
  refine Array.all_eq_true.2 fun i hi => ?_
  obtain ⟨statistics, hcontrol⟩ := h.finished i _ (Array.getElem?_eq_getElem hi)
  rw [Runner.isOver, hcontrol]
  rfl

/-- No worker breaks a rule in a complete run. -/
theorem not_isBroken (h : x.Completes config E s) (ht : t <+: s) {r : Runner σ}
    (hr : (x.follow E t).runners[i]? = some r) : r.control.isBroken = false := by
  by_contra hbroken
  obtain ⟨rest, rfl⟩ := ht
  obtain ⟨r', hr', hbroken'⟩ :=
    (h.standing t).isBroken_follow E rest hr (Bool.eq_true_of_not_eq_false hbroken)
  rw [← follow_append] at hr'
  obtain ⟨statistics, hcontrol⟩ := h.finished i r' hr'
  rw [hcontrol] at hbroken'
  cases hbroken'

theorem grows (h : x.Completes config E s) (hu : u <+: u') (hv : v < config.numWorkers) :
    ((x.follow E u).shared.coordinator.box v).Grows
      ((x.follow E u').shared.coordinator.box v) := by
  obtain ⟨rest, rfl⟩ := hu
  rw [follow_append]
  exact (h.standing u).grows_follow E rest hv

/-- Of two moments of a run one comes first. -/
theorem grows_or_grows (h : x.Completes config E s) (hu : u <+: s) (hu' : u' <+: s)
    (hv : v < config.numWorkers) :
    ((x.follow E u).shared.coordinator.box v).Grows
        ((x.follow E u').shared.coordinator.box v) ∨
      ((x.follow E u').shared.coordinator.box v).Grows
        ((x.follow E u).shared.coordinator.box v) :=
  (List.prefix_or_prefix_of_prefix hu hu').imp (h.grows · hv) (h.grows · hv)

/-- A verdict that an engine has returned stays with its worker. -/
theorem concluded (h : x.Completes config E s) (ht : t <+: s) {ρ : Report}
    (hρ : x.Concluded E t ρ) : ∃ r, (x.follow E t).runners[ρ.signature.worker]? = some r ∧
      r.worker.period = ρ.signature.period ∧
      ((x.follow E t).shared.coordinator.box ρ.signature.worker).past.size = ρ.signature.period ∧
      r.control.verdict? = some ρ.verdict := by
  obtain ⟨r, hr, hperiod, hpast, hcontrol | ⟨hreported, -⟩⟩ := (h.judged ht).concluded ρ hρ
  · exact ⟨r, hr, hperiod, hpast, by rw [hcontrol]; rfl⟩
  · exact ⟨r, hr, hperiod, hpast, hreported.verdict?_eq (h.not_isBroken ht hr)⟩

/-- A worker concludes once. -/
theorem concluded_unique (h : x.Completes config E s) {ρ ρ' : Report} (hρ : x.Concluded E s ρ)
    (hρ' : x.Concluded E s ρ') (hworker : ρ.signature.worker = ρ'.signature.worker) : ρ = ρ' := by
  obtain ⟨r, hr, hperiod, -, hverdict⟩ := h.concluded List.prefix_rfl hρ
  obtain ⟨r', hr', hperiod', -, hverdict'⟩ := h.concluded List.prefix_rfl hρ'
  rw [hworker] at hr
  obtain rfl := Option.some.inj (hr.symm.trans hr')
  obtain ⟨verdict, period, worker⟩ := ρ
  obtain ⟨verdict', period', worker'⟩ := ρ'
  obtain rfl : verdict = verdict' := Option.some.inj (hverdict.symm.trans hverdict')
  obtain rfl : period = period' := hperiod.symm.trans hperiod'
  obtain rfl : worker = worker' := hworker
  rfl

/-- Who is ahead of a verdict by more than the margin has seen it returned. -/
theorem concluded_or_period_le (h : x.Completes config E s) (ht : t <+: s) {ρ : Report}
    (hρ : x.Concluded E s ρ) {r : Runner σ} (hr : (x.follow E t).runners[i]? = some r) :
    x.Concluded E t ρ ∨ r.worker.period ≤ ρ.signature.period + config.margin := by
  have htake := List.prefix_iff_eq_take.1 ht
  rw [htake] at hr ⊢
  exact h.fresh.concluded_take_or_period_le h.mode_eq hρ hr

end Completes

/-! ## One run in the light of another -/

/-- No engine goes by the times that its worker shows it, as far as these differ between two runs:
where it looks at them, the `n`-th time in one run and the `n`-th time in the other, it goes on alike
with either. This holds of all runs if the engines do not read the times, and of all engines if the
runs show them the same times. -/
def TimesOverlooked (E : Engine σ) (x : Exchange σ) (s₁ s₂ : List Nat) : Prop :=
  ∀ (w n : Nat) (times times' : PhaseTimes), (x.sightings E s₁ w)[n]? = some times →
    (x.sightings E s₂ w)[n]? = some times' → E.Overlooks times times'

theorem timesOverlooked_of_overlooks (h : ∀ times times', E.Overlooks times times') :
    x.TimesOverlooked E s₁ s₂ := fun _ _ _ _ _ _ => h _ _

theorem timesOverlooked_of_eq (h : ∀ w, x.sightings E s₂ w = x.sightings E s₁ w) :
    x.TimesOverlooked E s₁ s₂ := by
  intro w n times times' hn hn'
  rw [h w, hn] at hn'
  obtain rfl := Option.some.inj hn'
  exact .refl E times

theorem TimesOverlooked.symm (h : x.TimesOverlooked E s₁ s₂) : x.TimesOverlooked E s₂ s₁ :=
  fun w n times times' hn hn' => (h w n times' times hn' hn).symm

/-- The next times that an engine sees in two runs, after as many in one as in the other. -/
theorem TimesOverlooked.next (h : x.TimesOverlooked E s₁ s₂) (ht : t ++ [i] <+: s₁)
    (hu : u ++ [i] <+: s₂) (hlength : (x.sightings E u i).length = (x.sightings E t i).length)
    {r : Runner σ} (hr : (x.follow E t).runners[i]? = some r)
    (hr' : (x.follow E u).runners[i]? = some r) :
    ∀ times ∈ r.sightings E (x.follow E t).shared,
      ∀ times' ∈ r.sightings E (x.follow E u).shared, E.Overlooks times times' := by
  have hseen {s t : List Nat} (ht : t ++ [i] <+: s) (hr : (x.follow E t).runners[i]? = some r)
      {times : PhaseTimes} (hmem : times ∈ r.sightings E (x.follow E t).shared) :
      (x.sightings E s i)[(x.sightings E t i).length]? = some times := by
    obtain ⟨rest, rfl⟩ := ht
    rw [sightings_append, sightings_concat E t hr, Runner.sightings_eq_singleton hmem]
    simp
  intro times hmem times' hmem'
  refine h i _ times times' (hseen ht hr hmem) ?_
  rw [← hlength]
  exact hseen hu hr' hmem'

/-- Worker `i` stands after `t` as it does after some part of `s`, has experienced the same, and has
seen its times as often. -/
def Mirrored (E : Engine σ) (x : Exchange σ) (t s : List Nat) (i : Nat) : Prop :=
  ∃ u, u <+: s ∧ (x.follow E t).Alike i (x.follow E u) ∧ x.journal E u i = x.journal E t i ∧
    (x.sightings E u i).length = (x.sightings E t i).length

namespace Mirrored

/-- A set that precedes all others of a mirrored producer has been opened in both runs or in
neither. -/
theorem le_past_iff (h : x.Mirrored E t s v) (hs : x.Completes config E s) (hu : u <+: s)
    (hv : v < config.numWorkers) {n : Nat}
    (hn : n ≤ ((x.follow E t).shared.coordinator.box v).completed)
    (hn' : n ≤ ((x.follow E u).shared.coordinator.box v).completed) :
    n ≤ ((x.follow E t).shared.coordinator.box v).past.size ↔
      n ≤ ((x.follow E u).shared.coordinator.box v).past.size := by
  obtain ⟨u', hu', halike, -, -⟩ := h
  have hcontents := halike.coordinator.contents_eq
  rw [← Mailbox.size_past_congr hcontents]
  rw [← Mailbox.completed_congr hcontents] at hn
  rcases hs.grows_or_grows hu' hu hv with hgrows | hgrows
  · exact hgrows.le_past_iff hn
  · exact (hgrows.le_past_iff hn').symm

/-- A set of a mirrored producer that is complete in both runs holds the same in both. -/
theorem frozen?_eq (h : x.Mirrored E t s v) (hs : x.Completes config E s) (hu : u <+: s)
    (hv : v < config.numWorkers) {q : Nat} {f f' : List Clause × Nat}
    (hf : ((x.follow E t).shared.coordinator.box v).frozen? q = some f)
    (hf' : ((x.follow E u).shared.coordinator.box v).frozen? q = some f') : f' = f := by
  obtain ⟨u', hu', halike, -, -⟩ := h
  rw [← Mailbox.frozen?_congr halike.coordinator.contents_eq] at hf
  rcases hs.grows_or_grows hu' hu hv with hgrows | hgrows
  · exact Option.some.inj (hf'.symm.trans (hgrows.frozen q f hf))
  · exact Option.some.inj ((hgrows.frozen q f' hf').symm.trans hf)

/-- A verdict that a mirrored worker carries is returned in the other run as well. -/
theorem concluded_of_verdict (h : x.Mirrored E t s v) (hs : x.Completes config E s) {r : Runner σ}
    (hr : (x.follow E t).runners[v]? = some r) {verdict : Verdict}
    (hverdict : r.control.verdict? = some verdict) :
    x.Concluded E s ⟨verdict, ⟨r.worker.period, v⟩⟩ := by
  obtain ⟨u, hu, halike, -, -⟩ := h
  obtain ⟨r', hr', huntimed⟩ := halike.exists_runner hr
  have hconc := (hs.judged hu).returned v r' verdict hr'
    ((Runner.verdict?_eq_of_untimed huntimed).trans hverdict)
  rw [Runner.worker_eq_of_untimed huntimed] at hconc
  exact hconc.mono hu

theorem concluded {ρ : Report} (h : x.Mirrored E t s₂ ρ.signature.worker)
    (hs₁ : x.Completes config E s₁) (hs₂ : x.Completes config E s₂) (ht : t <+: s₁)
    (hρ : x.Concluded E t ρ) : x.Concluded E s₂ ρ := by
  obtain ⟨r, hr, hperiod, -, hverdict⟩ := hs₁.concluded ht hρ
  have hconc := h.concluded_of_verdict hs₂ hr hverdict
  rwa [hperiod] at hconc

end Mirrored

section Reading

variable (hs₁ : x.Completes config E s₁) (hs₂ : x.Completes config E s₂) (ht : t <+: s₁)
  (hu : u <+: s₂) (hall : ∀ v < config.numWorkers, x.Mirrored E t s₂ v) {r : Runner σ}
  (hr : (x.follow E t).runners[i]? = some r) (hr' : (x.follow E u).runners[i]? = some r)

include hs₁ hs₂ ht hu hall hr hr'

/-- The winner that ends a search in one run ends it in the other. -/
theorem shouldTerminate_of_mirrored
    (hstop : (x.follow E t).shared.coordinator.shouldTerminate r.worker.period = true) :
    (x.follow E u).shared.coordinator.shouldTerminate r.worker.period = true := by
  obtain ⟨W, hW, hperiod⟩ := (hs₁.judged ht).period_eq_of_decide (hs₁.standing t) hr hstop
  obtain ⟨hconc, hverdict⟩ := (hs₁.judged ht).winner W hW
  rw [(hs₁.standing t).margin_eq] at hperiod
  obtain ⟨q, hq, -⟩ := hs₁.concluded ht hconc
  have hmirrored := hall _ ((hs₁.standing t).lt_numWorkers hq)
  by_contra hgoing
  rcases hs₂.concluded_or_period_le hu (hmirrored.concluded hs₁ hs₂ ht hconc) hr' with hconc | hle
  · have hle := (hs₂.judged hu).period_le_of_decide (hs₂.standing u) (hs₂.lagging u) hr'
      (Bool.eq_false_of_not_eq_true hgoing) hconc hverdict
    rw [(hs₂.standing u).margin_eq] at hle
    omega
  · omega

/-- A verdict that a worker has seen returned in one run is returned before in the other. -/
theorem concluded_of_mirrored {W : Report} (hconc : x.Concluded E u W)
    (hperiod : r.worker.period = W.signature.period + config.margin + 1) :
    x.Concluded E t W := by
  have hx := hs₁.standing t
  have hconc₂ := hconc.mono hu
  obtain ⟨q, hq, hqperiod, -, -⟩ := hs₂.concluded hu hconc
  obtain ⟨-, -, -, hpast, -⟩ := hs₂.concluded List.prefix_rfl hconc₂
  have hv := (hs₂.standing u).lt_numWorkers hq
  have hmirrored := hall _ hv
  have hvi : W.signature.worker ≠ i := by
    rintro rfl
    obtain rfl := Option.some.inj (hq.symm.trans hr')
    omega
  -- its worker completes no more sets than the verdict leaves it
  obtain ⟨u', hu', hsame, -, -⟩ := hmirrored
  have hle := (hs₂.grows hu' hv).past_le
  rw [hpast, Mailbox.size_past_congr hsame.coordinator.contents_eq] at hle
  have hclosed :
      ((x.follow E t).shared.coordinator.box W.signature.worker).isClosed = true := by
    rcases (hs₁.lagging t).near hx hr hv hvi with hnear | hclosed
    · by_contra hopen
      rw [Mailbox.completed, if_neg hopen, hx.margin_eq] at hnear
      omega
    · exact hclosed
  obtain ⟨p, hp⟩ := hx.exists_runner hv
  obtain ⟨hid, -, -, -, hfits⟩ := hx.runner _ p hp
  rw [← hid] at hclosed
  obtain ⟨verdict, hverdict⟩ := hfits.verdict?_isSome hclosed (hs₁.not_isBroken ht hp)
  have hconc₁ := (hs₁.judged ht).returned _ p verdict hp hverdict
  have hsame := hs₂.concluded_unique ((hall _ hv).concluded_of_verdict hs₂ hp hverdict) hconc₂ rfl
  rwa [hsame] at hconc₁

/-- A worker is told to stop in both runs or in neither. -/
theorem shouldTerminate_eq :
    (x.follow E u).shared.coordinator.shouldTerminate r.worker.period =
      (x.follow E t).shared.coordinator.shouldTerminate r.worker.period := by
  rw [Bool.eq_iff_iff]
  refine ⟨fun hstop => ?_, shouldTerminate_of_mirrored hs₁ hs₂ ht hu hall hr hr'⟩
  obtain ⟨W, hW, hperiod⟩ := (hs₂.judged hu).period_eq_of_decide (hs₂.standing u) hr' hstop
  obtain ⟨hconc, hverdict⟩ := (hs₂.judged hu).winner W hW
  rw [(hs₂.standing u).margin_eq] at hperiod
  by_contra hgoing
  have hle := (hs₁.judged ht).period_le_of_decide (hs₁.standing t) (hs₁.lagging t) hr
    (Bool.eq_false_of_not_eq_true hgoing)
    (concluded_of_mirrored hs₁ hs₂ ht hu hall hr hr' hconc hperiod) hverdict
  rw [(hs₁.standing t).margin_eq] at hle
  omega

/-- What a worker is about to read is the same in both runs. -/
theorem sees_of_mirrored (halike : (x.follow E t).Alike i (x.follow E u))
    (hcan : r.canStep (x.follow E t).shared.coordinator = true)
    (hcan' : r.canStep (x.follow E u).shared.coordinator = true) :
    r.control.Sees (x.follow E t).shared.coordinator (x.follow E u).shared.coordinator
      r.worker := by
  have hx := hs₁.standing t
  have hy := hs₂.standing u
  obtain ⟨hid, -, hconfig, -, -⟩ := hx.runner i r hr
  have hmode : r.worker.config.nonDeterministic = false := by rw [hconfig, hs₁.mode_eq]
  cases hb : r.control with
  | boundary b =>
    show b.stage.Sees _ _ _
    cases hstage : b.stage with
    | fetching offset y =>
      have hv := hx.neighbour_lt hr offset
      have hnext := halike.coordinator.next_eq (r.worker.neighbour offset)
      show _ ≤ _ ↔ _ ≤ _
      rw [hid, hnext]
      refine (hall _ hv).le_past_iff hs₂ hu hv (hx.next_le _ hv i) ?_
      rw [← hnext]
      exact hy.next_le _ hv i
    | reading offset y q =>
      have hv := hx.neighbour_lt hr offset
      obtain ⟨f, hf⟩ :=
        Option.isSome_iff_exists.1 (r.frozen?_isSome_of_canStep hb hstage hmode hcan)
      obtain ⟨f', hf'⟩ :=
        Option.isSome_iff_exists.1 (r.frozen?_isSome_of_canStep hb hstage hmode hcan')
      have heq := Coordinator.frozen?_eq (hx.lt_mailboxes hv) q
      have heq' := Coordinator.frozen?_eq (hy.lt_mailboxes hv) q
      obtain rfl := (hall _ hv).frozen?_eq hs₂ hu hv (heq.symm.trans hf) (heq'.symm.trans hf')
      exact ⟨f', hf, hf'⟩
    | deciding => exact shouldTerminate_eq hs₁ hs₂ ht hu hall hr hr'
    | _ => trivial
  | _ => trivial

end Reading

/-! ## Following a run -/

section Following

variable (hs₁ : x.Completes config E s₁) (hs₂ : x.Completes config E s₂)
  (htimes : x.TimesOverlooked E s₁ s₂)

include hs₁ hs₂ htimes

/-- When a mirrored worker takes a step, it takes the same step in the other run. -/
theorem Mirrored.step (hi : t ++ [i] <+: s₁)
    (hall : ∀ v < config.numWorkers, x.Mirrored E t s₂ v) {r : Runner σ}
    (hr : (x.follow E t).runners[i]? = some r)
    (hcan : r.canStep (x.follow E t).shared.coordinator = true) :
    x.Mirrored E (t ++ [i]) s₂ i := by
  have ht : t <+: s₁ := (List.prefix_append t [i]).trans hi
  obtain ⟨u, ⟨rest, rfl⟩, halike, hjournal, hlength⟩ := hall i ((hs₁.standing t).lt_numWorkers hr)
  have hgoing : r.isOver = false := by
    rw [Runner.canStep, Bool.and_eq_true, Bool.not_eq_true'] at hcan
    exact hcan.1
  -- the worker's next step in the other run
  obtain ⟨t₁, t₂, rfl, hwaited, hnothing, hunseen, hcan'⟩ :=
    (hs₂.standing u).exists_step E (halike.runner hr hgoing) hgoing (t := rest) fun r' hr' => by
      rw [← follow_append] at hr'
      obtain ⟨statistics, hcontrol⟩ := hs₂.finished i r' hr'
      rw [Runner.isOver, hcontrol]
      rfl
  rw [← follow_append] at hwaited hcan'
  have hu : u ++ t₁ ++ [i] <+: u ++ (t₁ ++ i :: t₂) := ⟨t₂, by simp⟩
  have hu' : u ++ t₁ <+: u ++ (t₁ ++ i :: t₂) := (List.prefix_append _ _).trans hu
  have hsame := halike.trans hwaited
  have hr' := hsame.runner hr hgoing
  have hsees := sees_of_mirrored hs₁ hs₂ ht hu' hall hr hr' hsame hcan hcan'
  have hlength' : (x.sightings E (u ++ t₁) i).length = (x.sightings E t i).length := by
    rw [sightings_append, hunseen, List.append_nil, hlength]
  obtain ⟨hstep, hevents⟩ := hsame.turn (hs₁.standing t) (hs₂.standing _) hs₁.time_eq
    hs₁.memory_eq hr hr' hsees (htimes.next hi hu hlength' hr hr')
    (fun r' hr' => hs₁.not_isBroken hi (by rw [follow_concat]; exact hr'))
    (fun r' hr' => hs₂.not_isBroken hu (by rw [follow_concat]; exact hr'))
  refine ⟨u ++ t₁ ++ [i], hu, ?_, ?_, ?_⟩
  · rw [follow_concat, follow_concat]
    exact hstep
  · rw [journal_concat, journal_concat, journal_append, hnothing, List.append_nil, hjournal,
      if_pos rfl, if_pos rfl, hevents]
  · rw [sightings_concat E _ hr, sightings_concat E _ hr', List.length_append, List.length_append,
      hlength', Runner.length_sightings_eq]

/-- At every moment of one run every worker stands as it does at some moment of the other. -/
theorem Completes.mirrored (ht : t <+: s₁) : ∀ v < config.numWorkers, x.Mirrored E t s₂ v := by
  induction t using List.reverseRecOn with
  | nil => exact fun v _ => ⟨[], List.nil_prefix, .refl v x, rfl, rfl⟩
  | append_singleton t j ih =>
    have hall := ih ((List.prefix_append t [j]).trans ht)
    intro v hv
    by_cases hvj : v = j
    · subst hvj
      obtain ⟨r, hr⟩ := (hs₁.standing t).exists_runner hv
      cases hcan : r.canStep (x.follow E t).shared.coordinator with
      | true => exact Mirrored.step hs₁ hs₂ htimes ht hall hr hcan
      | false =>
        obtain ⟨-, -, -, hevents⟩ := turn_of_not_canStep E hr hcan
        obtain ⟨u, hu, halike, hjournal, hlength⟩ := hall v hv
        refine ⟨u, hu, ?_, ?_, ?_⟩
        · rw [follow_concat]
          exact (alike_of_not_canStep E hr hcan).symm.trans halike
        · rw [journal_concat, if_pos rfl, hevents, List.append_nil, hjournal]
        · rw [sightings_concat E t hr, Runner.sightings_of_not_canStep E hcan, List.append_nil,
            hlength]
    · obtain ⟨u, hu, halike, hjournal, hlength⟩ := hall v hv
      refine ⟨u, hu, ?_, ?_, ?_⟩
      · rw [follow_concat]
        exact ((hs₁.standing t).alike_turn E hvj).symm.trans halike
      · rw [journal_concat, if_neg (Ne.symm hvj), List.append_nil, hjournal]
      · rw [sightings_concat_of_ne E t (Ne.symm hvj), hlength]

/-- In the end every worker stands the same in both runs, but for its times, and has experienced the
same. -/
theorem Completes.alike (hv : v < config.numWorkers) :
    (x.follow E s₁).Alike v (x.follow E s₂) ∧ x.journal E s₂ v = x.journal E s₁ v := by
  obtain ⟨u, ⟨rest, rfl⟩, halike, hjournal, -⟩ := hs₁.mirrored hs₂ htimes List.prefix_rfl v hv
  obtain ⟨r, hr⟩ := (hs₁.standing s₁).exists_runner hv
  obtain ⟨statistics, hcontrol⟩ := hs₁.finished v r hr
  have hover : r.isOver = true := by rw [Runner.isOver, hcontrol]; rfl
  obtain ⟨r', hr', huntimed⟩ := halike.exists_runner hr
  obtain ⟨hrest, hnothing⟩ := (hs₂.standing u).alike_of_isOver E hr'
    ((Runner.isOver_eq_of_untimed huntimed).trans hover) rest
  rw [← follow_append] at hrest
  exact ⟨halike.trans hrest, by rw [journal_append, hnothing, List.append_nil, hjournal]⟩

/-- The runners of both runs end in the same states, but for their times. -/
theorem Completes.untimed_runners_eq : (x.follow E s₂).runners.map Runner.untimed =
    (x.follow E s₁).runners.map Runner.untimed := by
  refine Array.ext_getElem? fun v => ?_
  rw [Array.getElem?_map, Array.getElem?_map]
  by_cases hv : v < config.numWorkers
  · exact (hs₁.alike hs₂ htimes hv).1.runner_eq
  · rw [Array.getElem?_eq_none (by rw [(hs₂.standing s₂).size_runners]; exact not_lt.1 hv),
      Array.getElem?_eq_none (by rw [(hs₁.standing s₁).size_runners]; exact not_lt.1 hv)]

/-- The winner of one run is no better than that of the other. -/
theorem Completes.winner_le {W : Report}
    (hW : (x.follow E s₁).shared.coordinator.winner? = some W) :
    x.Concluded E s₂ W ∧ W.verdict.isConclusive = true ∧
      ∃ W', (x.follow E s₂).shared.coordinator.winner? = some W' ∧
        ¬ W.signature < W'.signature := by
  obtain ⟨hconc, hverdict⟩ := (hs₁.judged List.prefix_rfl).winner W hW
  obtain ⟨r, hr, -⟩ := hs₁.concluded List.prefix_rfl hconc
  have hconc₂ := Mirrored.concluded (hs₁.mirrored hs₂ htimes List.prefix_rfl _
    ((hs₁.standing s₁).lt_numWorkers hr)) hs₁ hs₂ List.prefix_rfl hconc
  obtain ⟨W', hW', hbetter⟩ := (hs₂.judged List.prefix_rfl).winner_best hs₂.isOver hconc₂
  exact ⟨hconc₂, hverdict, W', hW', hbetter hverdict⟩

/-- Both runs have the same winner. -/
theorem Completes.winner_eq : (x.follow E s₂).shared.coordinator.winner? =
    (x.follow E s₁).shared.coordinator.winner? := by
  cases hW : (x.follow E s₁).shared.coordinator.winner? with
  | none =>
    cases hW' : (x.follow E s₂).shared.coordinator.winner? with
    | none => rfl
    | some W' =>
      obtain ⟨-, -, W, hsome, -⟩ := hs₂.winner_le hs₁ htimes.symm hW'
      rw [hW] at hsome
      cases hsome
  | some W =>
    obtain ⟨hconc, -, W', hW', hle⟩ := hs₁.winner_le hs₂ htimes hW
    obtain ⟨-, -, V, hV, hle'⟩ := hs₂.winner_le hs₁ htimes.symm hW'
    obtain rfl := Option.some.inj (hW.symm.trans hV)
    have hsignature : W.signature = W'.signature := by
      by_contra hne
      exact hle' (Signature.lt_of_not_lt_of_ne hle hne)
    have hconc' := ((hs₂.judged List.prefix_rfl).winner W' hW').1
    rw [hW', hs₂.concluded_unique hconc hconc' (congrArg Signature.worker hsignature)]

end Following

end Exchange

namespace Portfolio

/-- Schedule independence. Take any two complete and orderly runs of a launched portfolio in the
mode that waits, without resource limits, whose engines do not go by the time. However the calls of
the workers are interleaved, and whatever their stopwatches show, the winner is the same, and every
worker ends in the same state, with the same verdict, the same number of periods and the same
counters, and with its engine in the same state; only the times in its statistics may differ. It has
exported the same clauses in each period, and it has experienced the same: the lengths of its
periods, the clauses that it imported and the batches that its engine took, all in the same order. -/
theorem schedule_independent (E : Engine σ) {engines : List σ} {config : Config} {sensors : Sensors}
    {p : Portfolio σ} (h : launch engines config sensors = .ok p)
    (htime : config.limits.time = none) (hmemory : config.limits.memory = none)
    (hmode : config.nonDeterministic = false) {s₁ s₂ : List Nat}
    (horderly₁ : p.toExchange.Orderly E s₁) (horderly₂ : p.toExchange.Orderly E s₂)
    (hfinished₁ : (p.toExchange.follow E s₁).AllFinished)
    (hfinished₂ : (p.toExchange.follow E s₂).AllFinished)
    (htimes : p.toExchange.TimesOverlooked E s₁ s₂) :
    let x₁ := p.toExchange.follow E s₁
    let x₂ := p.toExchange.follow E s₂
    x₂.shared.coordinator.winner? = x₁.shared.coordinator.winner? ∧
    x₂.runners.map Runner.untimed = x₁.runners.map Runner.untimed ∧
    ∀ i < config.numWorkers,
      (x₂.shared.coordinator.box i).contents = (x₁.shared.coordinator.box i).contents ∧
      p.toExchange.journal E s₂ i = p.toExchange.journal E s₁ i := by
  intro x₁ x₂
  have hfresh := fresh_of_launch h
  have hs₁ : p.toExchange.Completes config E s₁ :=
    ⟨hfresh, htime, hmemory, hmode, horderly₁, hfinished₁⟩
  have hs₂ : p.toExchange.Completes config E s₂ :=
    ⟨hfresh, htime, hmemory, hmode, horderly₂, hfinished₂⟩
  refine ⟨hs₁.winner_eq hs₂ htimes, hs₁.untimed_runners_eq hs₂ htimes, fun i hi => ?_⟩
  obtain ⟨halike, hjournal⟩ := hs₁.alike hs₂ htimes hi
  exact ⟨halike.coordinator.contents_eq, hjournal⟩

/-- A scripted engine does not go by the time. -/
theorem overlooks_scripted (times times' : PhaseTimes) : Scripted.engine.Overlooks times times' := by
  intro e w
  show e.resume _ = e.resume _
  unfold Scripted.resume
  cases e.control <;> rfl

/-- Two scripted engines take turns in two different orders. The second one imports the clause of
the first one in both, and waits longer for it in one of them, so that it hands in other times. -/
theorem schedule_independent_scripted : ∃ p,
    launch [{ script := { offers := [{ literals := [1, 2] }], concludeAt? := some 1 } },
        { script := {} }] { numWorkers := 2, margin := 1, periodLength := 10 }
        { clock := fun n => ⟨n⟩ } = .ok p ∧
    let alternating := (List.replicate 55 [0, 1]).flatten
    let uneven := (List.replicate 25 [1, 1, 1, 1, 0, 0, 0]).flatten
    let x₁ := p.toExchange.follow Scripted.engine alternating
    let x₂ := p.toExchange.follow Scripted.engine uneven
    x₂.runners ≠ x₁.runners ∧ x₂.runners.map Runner.untimed = x₁.runners.map Runner.untimed ∧
    p.toExchange.journal Scripted.engine uneven 1 =
      p.toExchange.journal Scripted.engine alternating 1 := by
  obtain ⟨p, hp, hcheck⟩ := exists_eq_ok_of_check
    (x := launch ([{ script := { offers := [{ literals := [1, 2] }], concludeAt? := some 1 } },
      { script := {} }] : List Scripted) { numWorkers := 2, margin := 1, periodLength := 10 }
      { clock := fun n => ⟨n⟩ })
    (q := fun p =>
      let x := p.toExchange
      let alternating := (List.replicate 55 [0, 1]).flatten
      let uneven := (List.replicate 25 [1, 1, 1, 1, 0, 0, 0]).flatten
      let agreed := Exchange.concursOn .unsatisfiable
      let handed (s : List Nat) := (x.follow Scripted.engine s).runners.toList.map handedIn
      decide (handed uneven ≠ handed alternating) &&
      (x.follow Scripted.engine alternating).runners.all (fun r => (handedIn r).isSome) &&
        (x.follow Scripted.engine uneven).runners.all (fun r => (handedIn r).isSome) &&
        Exchange.throughout Scripted.engine agreed x alternating &&
        Exchange.throughout Scripted.engine agreed x uneven) (by decide +kernel)
  simp only [Bool.and_eq_true] at hcheck
  obtain ⟨⟨⟨⟨hdiffer, hfinished₁⟩, hfinished₂⟩, horderly₁⟩, horderly₂⟩ := hcheck
  have h := schedule_independent Scripted.engine hp rfl rfl rfl
    (Exchange.orderly_of_throughout horderly₁ (by decide))
    (Exchange.orderly_of_throughout horderly₂ (by decide))
    (Exchange.allFinished_of_handedIn hfinished₁) (Exchange.allFinished_of_handedIn hfinished₂)
    (Exchange.timesOverlooked_of_overlooks overlooks_scripted)
  refine ⟨p, hp, fun heq => of_decide_eq_true hdiffer ?_, h.2.1, (h.2.2 1 (by decide)).2⟩
  rw [heq]

end Portfolio

end ClauseExchange
