import ClauseExchange.Proofs.Exchange.GraceWindow
import ClauseExchange.Proofs.Mailbox.Retained

/-!
# How far workers drift apart, and how much a mailbox retains

In the mode that waits, a worker is never ahead of an open producer by more than the margin
(`Exchange.Lagging.period_le_of_open`). So the sets that wait for the slowest consumer of a mailbox
are bounded as well: the owner can be ahead of the consumer by a margin and a period, and the
consumer's cursor lies at most a margin behind the consumer. A consumer that has finished reads
nothing any more, but then its verdict ends the owner's search within the grace window
(`Exchange.Judged.period_le_of_verdict`).

* `Exchange.Judged.period_le_next` bounds the unread sets when the owner is about to advance, the
  only moment at which a mailbox grows.
* `Portfolio.skew_and_retention` puts it together for every schedule.
-/

namespace ClauseExchange

variable {σ : Type}

/-! ## When a mailbox grows -/

/-- Unless it breaks a rule, a step leaves the retained sets of all mailboxes alone, or it is an
advance of the worker's own mailbox that succeeds. -/
theorem Runner.Step.retained_cases {r r' : Runner σ} {c c' : Coordinator} {events : List Event}
    (h : r.Step c events r' c') (hgood : r'.control.isBroken = false) :
    (∀ v, (c'.box v).retained = (c.box v).retained) ∨
      ∃ b n q, r.control = .boundary b ∧ b.stage = .advancing ∧
        ((c.box r.worker.id).advance n).1 = .ok q ∧
        c' = c.setBox r.worker.id ((c.box r.worker.id).advance n).2 := by
  have hboard {c' : Coordinator} (hc : c'.mailboxes = c.mailboxes) (v : Nat) :
      (c'.box v).retained = (c.box v).retained := by rw [Coordinator.box_congr hc]
  have hset {u : Nat} {m : Mailbox} (hm : m.retained = (c.box u).retained) (v : Nat) :
      ((c.setBox u m).box v).retained = (c.box v).retained := by
    by_cases hu : u < c.numWorkers
    · rw [Coordinator.box_setBox hu]
      split
      · rename_i hvu
        rw [hvu, hm]
      · rfl
    · rw [Coordinator.setBox_of_eq fun h => absurd h hu]
  cases h with
  | start _ hc => exact .inl (hboard hc.mailboxes_eq)
  | signOff _ hc => exact .inl (hboard hc.mailboxes_eq)
  | publish => exact .inl (hset (Mailbox.retained_append _ _))
  | advance hr hb _ hok => exact .inr ⟨_, _, _, hr, hb, hok, rfl⟩
  | acknowledge =>
    rw [Coordinator.acknowledge, Coordinator.onMailbox_snd]
    exact .inl (hset (Mailbox.retained_acknowledge _ _ _))
  | fail => cases hgood
  | close => exact .inl (hset (Mailbox.retained_close _ _))
  | leave => exact .inl (hset (Mailbox.retained_close _ _))
  | _ => exact .inl (hboard rfl)

namespace Exchange

variable {E : Engine σ} {x : Exchange σ} {schedule : List Nat} {config : Config}

/-! ## How far the owner is ahead of its consumers -/

/-- A worker that goes on is not ahead of a worker that has finished by more than the margin. -/
theorem Judged.period_le_of_verdict (h : x.Judged E schedule) (hx : x.Fresh config)
    (htime : config.limits.time = none) (hmemory : config.limits.memory = none)
    (hmode : config.nonDeterministic = false) (hsmooth : x.Smooth E schedule) {i j : Nat}
    {r q : Runner σ} {verdict : Verdict} (hr : (x.follow E schedule).runners[i]? = some r)
    (hstopped : r.worker.stopped = false) (hdeciding : r.control.isDeciding = false)
    (hq : (x.follow E schedule).runners[j]? = some q)
    (hverdict : q.control.verdict? = some verdict) :
    r.worker.period ≤ q.worker.period + (x.follow E schedule).shared.coordinator.margin := by
  have hconc := h.returned j q verdict hq hverdict
  cases hconclusive : verdict.isConclusive with
  | true => exact h.going i r _ hr hstopped hdeciding hconc hconclusive
  | false =>
    -- the worker had been told to stop, right after the window of a winner
    obtain ⟨n, q', hq', hcontrol, hperiod⟩ := hconc
    obtain rfl : verdict = .unknown := by
      rw [← Bool.not_eq_true, Verdict.isConclusive_iff, not_not] at hconclusive
      exact hconclusive
    have hprefix := List.take_prefix n schedule
    have hpart := hx.judged_of_smooth htime hmemory hmode (hsmooth.of_prefix hx.standing hprefix)
    obtain ⟨W, hW, hend⟩ := hpart.stopped j q' hq' (hsmooth.unknown_stopped n j q' hq' hcontrol)
    obtain ⟨hWconc, hWconclusive⟩ := hpart.winner W hW
    have hWconc := hWconc.append (schedule.drop n)
    rw [List.take_append_drop] at hWconc
    have hle := h.going i r W hr hstopped hdeciding hWconc hWconclusive
    have hmargin := (hx.standing.follow E (schedule.take n)).margin_eq
    have hmargin' := (hx.standing.follow E schedule).margin_eq
    dsimp only at hperiod
    omega

/-- When a worker is about to advance, no other one has left more than two margins and a period
unread in its mailbox. -/
theorem Judged.period_le_next (h : x.Judged E schedule) (hx : x.Fresh config)
    (htime : config.limits.time = none) (hmemory : config.limits.memory = none)
    (hmode : config.nonDeterministic = false) (hsmooth : x.Smooth E schedule) {v w : Nat}
    {r : Runner σ} {b : Boundary} (hr : (x.follow E schedule).runners[v]? = some r)
    (hcontrol : r.control = .boundary b) (hstage : b.stage = .advancing)
    (hw : w < config.numWorkers) (hwv : w ≠ v) :
    r.worker.period ≤
      ((x.follow E schedule).shared.coordinator.box v).next w + 2 * config.margin + 1 := by
  have hy := hx.standing.follow E schedule
  have hlag := hx.lagging_follow hmode E schedule
  obtain ⟨q, hq⟩ := hy.exists_runner hw
  obtain ⟨hid, -, -, -, hfits⟩ := hy.runner v r hr
  obtain ⟨hopen, -, hgoing⟩ := Runner.fits_boundary hfits hcontrol hstage
  rw [hid] at hopen
  have hmargin := hy.margin_eq
  have hread := hlag.period_le_next hy hq (hsmooth.unbroken w q hq) (hy.lt_numWorkers hr)
    (Ne.symm hwv) hopen
  have hskew : r.worker.period ≤ q.worker.period + config.margin + 1 := by
    obtain ⟨hidq, -, -, -, hfitsq⟩ := hy.runner w q hq
    cases hclosed : ((x.follow E schedule).shared.coordinator.box w).isClosed with
    | false =>
      have hle := hlag.period_le_of_open hy hr hw hclosed
      have hsize := hfitsq.size_past.2
      rw [hidq] at hsize
      omega
    | true =>
      have hdeciding : r.control.isDeciding = false := by
        rw [hcontrol, ← Bool.not_eq_true, Control.isDeciding_boundary, hstage]
        simp
      obtain ⟨verdict, hverdict⟩ :=
        hfitsq.verdict?_isSome (by rwa [hidq]) (hsmooth.unbroken w q hq)
      have hle := h.period_le_of_verdict hx htime hmemory hmode hsmooth hr hgoing hdeciding hq
        hverdict
      omega
  omega

/-! ## Whole runs -/

/-- The sets that a mailbox retains after a smooth run. -/
theorem Fresh.length_retained_le (h : x.Fresh config) (htime : config.limits.time = none)
    (hmemory : config.limits.memory = none) (hmode : config.nonDeterministic = false)
    (hsmooth : x.Smooth E schedule) {v : Nat} (hv : v < config.numWorkers) :
    ((x.follow E schedule).shared.coordinator.box v).retained.length ≤ 2 * config.margin + 3 := by
  induction schedule using List.reverseRecOn with
  | nil =>
    show (x.shared.coordinator.box v).retained.length ≤ _
    rw [h.box_eq v hv, Mailbox.length_retained]
    show 1 ≤ _
    omega
  | append_singleton schedule i ih =>
    have hpart := hsmooth.of_prefix h.standing (List.prefix_append schedule [i])
    have hkeep := ih hpart
    have hy := h.standing.follow E schedule
    have hunbroken := hsmooth.unbroken
    rw [follow_concat] at hunbroken ⊢
    rcases hy.turn_cases E i with ⟨heq, -⟩ | ⟨r, r', hr, hstep, -, hrunners⟩
    · rwa [heq]
    · have hid := (hy.runner i r hr).id_eq
      have hi := hy.lt_mailboxes (hy.lt_numWorkers hr)
      have hgood := hunbroken i r' (by rw [hrunners, if_pos rfl])
      rcases hstep.retained_cases hgood with hsame | ⟨b, n, q, hb, hstage, hok, hc⟩
      · rwa [hsame]
      · rw [hc]
        rw [hid] at hok ⊢
        rw [Coordinator.box_setBox hi]
        split
        · rename_i hvi
          have hlog := hy.logs i hi
          rw [hy.numWorkers_eq, hy.margin_eq] at hlog
          obtain ⟨-, hpast, -⟩ := Runner.fits_boundary (hy.runner i r hr).fits hb hstage
          rw [hid] at hpast
          rcases hlog.length_retained_advance (hy.lt_numWorkers hr) hok with hle | ⟨w, hw, hwi, hle⟩
          · omega
          · have hjudged := h.judged_of_smooth htime hmemory hmode hpart
            have hnext :=
              hjudged.period_le_next h htime hmemory hmode hpart hr hb hstage hw hwi
            have hzero : Stage.advancing.ahead = 0 := rfl
            omega
        · exact hkeep

end Exchange

namespace Portfolio

/-- Bounded skew and bounded mailboxes. In the mode that waits, no worker is ahead of the open set
of any other one by more than the margin. Without resource limits, as long as no rule has been
broken and engines give up only when they have been told to stop, no mailbox retains more than
`2 * margin + 3` sets, whether its consumers have finished or not. -/
theorem skew_and_retention (E : Engine σ) {engines : List σ} {config : Config} {sensors : Sensors}
    {p : Portfolio σ} (h : launch engines config sensors = .ok p)
    (hmode : config.nonDeterministic = false) (schedule : List Nat) :
    let c := (p.toExchange.follow E schedule).shared.coordinator
    (∀ (w v : Nat) (r : Runner σ) (m : Mailbox),
      (p.toExchange.follow E schedule).runners[w]? = some r → c.mailbox v = .ok m →
        m.isClosed = false → r.worker.period ≤ m.tail.period + config.margin) ∧
    (config.limits.time = none → config.limits.memory = none → p.toExchange.Smooth E schedule →
      ∀ (v : Nat) (m : Mailbox), c.mailbox v = .ok m →
        m.retained.length ≤ 2 * config.margin + 3) := by
  intro c
  have hfresh := fresh_of_launch h
  have hx := hfresh.standing.follow E schedule
  refine ⟨fun w v r m hr hm hopen => ?_, fun htime hmemory hsmooth v m hm => ?_⟩
  · obtain ⟨hv, rfl⟩ := Coordinator.mailbox_eq_ok hm
    rw [(hx.logs v hv).tail_period, ← hx.margin_eq]
    rw [hx.numWorkers_eq] at hv
    exact (hfresh.lagging_follow hmode E schedule).period_le_of_open hx hr hv hopen
  · obtain ⟨hv, rfl⟩ := Coordinator.mailbox_eq_ok hm
    rw [hx.numWorkers_eq] at hv
    exact hfresh.length_retained_le htime hmemory hmode hsmooth hv

/-- With margin `0` both bounds are reached: the second of two scripted engines has completed its
first period but has read nothing yet, and the first one has gone on to complete its second. -/
theorem skew_and_retention_tight : ∃ p r m₀ m₁,
    launch [{ script := {} }, { script := {} }]
      { numWorkers := 2, margin := 0, periodLength := 10 } {} = .ok p ∧
    let x := p.toExchange.follow Scripted.engine (List.replicate 7 1 ++ List.replicate 25 0)
    x.runners[0]? = some r ∧ x.shared.coordinator.mailbox 0 = .ok m₀ ∧
    x.shared.coordinator.mailbox 1 = .ok m₁ ∧ r.worker.period = 1 ∧ m₁.tail.period = 1 ∧
    r.worker.period ≤ m₁.tail.period + 0 ∧ m₀.retained = [0, 1, 2] ∧
    m₀.retained.length ≤ 2 * 0 + 3 := by
  obtain ⟨p, hp, hcheck⟩ := exists_eq_ok_of_check
    (x := launch ([{ script := {} }, { script := {} }] : List Scripted)
      { numWorkers := 2, margin := 0, periodLength := 10 } {})
    (q := fun p =>
      let x := p.toExchange.follow Scripted.engine (List.replicate 7 1 ++ List.replicate 25 0)
      x.runners[0]?.any (fun r : Runner Scripted => r.worker.period == 1) &&
        !(x.shared.coordinator.box 1).isClosed && (x.shared.coordinator.box 1).tail.period == 1 &&
        (x.shared.coordinator.box 0).retained == [0, 1, 2] &&
        x.runners.all (fun r => !r.control.isBroken) &&
        Exchange.throughout Scripted.engine (Exchange.concursOn .unsatisfiable) p.toExchange
          (List.replicate 7 1 ++ List.replicate 25 0)) (by decide +kernel)
  simp only [Bool.and_eq_true, Bool.not_eq_true', beq_iff_eq, Option.any_eq_true] at hcheck
  obtain ⟨⟨⟨⟨⟨⟨r, hr, hperiod⟩, hopen⟩, htail⟩, hretained⟩, hgood⟩, hconcurs⟩ := hcheck
  have hx := standing_follow hp Scripted.engine (List.replicate 7 1 ++ List.replicate 25 0)
  have h₀ := Coordinator.mailbox_eq (hx.lt_mailboxes (by decide : 0 < 2))
  have h₁ := Coordinator.mailbox_eq (hx.lt_mailboxes (by decide : 1 < 2))
  obtain ⟨hskew, hbounded⟩ := skew_and_retention Scripted.engine hp rfl
    (List.replicate 7 1 ++ List.replicate 25 0)
  exact ⟨p, r, _, _, hp, hr, h₀, h₁, hperiod, htail, hskew 0 1 r _ hr h₁ hopen, hretained,
    hbounded rfl rfl (Exchange.smooth_of_throughout hconcurs (by decide) hgood) 0 _ h₀⟩

end Portfolio

end ClauseExchange
