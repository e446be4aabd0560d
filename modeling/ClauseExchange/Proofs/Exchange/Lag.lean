import ClauseExchange.Proofs.Exchange.Standing

/-!
# How far a worker has read

In the mode that waits, a worker in period `p` has read exactly the sets of every producer that lie
at least `margin` periods behind, or all of them if the producer has closed its mailbox earlier:
`Coordinator.CaughtUp`. In the course of a boundary it catches up with one producer after the other
(`Stage.Lags`). A worker that has broken a rule still does not run ahead of an open producer
(`Coordinator.Near`).

* `Exchange.Fresh.lagging_follow` says that this holds after every schedule.
* `Exchange.Lagging.near` bounds the period of any worker by the sets of any other one.
-/

namespace ClauseExchange

namespace Coordinator

/-- Worker `i` has read those sets of producer `v` that a worker has read when it enters period
`p`. -/
def CaughtUp (c : Coordinator) (i v p : Nat) : Prop :=
  (c.box v).next i = p - c.margin ∨
    (c.box v).isClosed = true ∧ (c.box v).next i = (c.box v).past.size + 1 ∧
      (c.box v).past.size + 1 ≤ p - c.margin

/-- Worker `w` has caught up with all producers. -/
def AllCaughtUp (c : Coordinator) (w : Worker) (p : Nat) : Prop :=
  ∀ v < c.numWorkers, v ≠ w.id → c.CaughtUp w.id v p

/-- A worker in period `p` has not left producer `v` behind while that was open. -/
def Near (c : Coordinator) (v p : Nat) : Prop :=
  p ≤ (c.box v).completed + c.margin ∨ (c.box v).isClosed = true

end Coordinator

/-- How far worker `w` has read in a stage of a boundary. -/
def Stage.Lags (c : Coordinator) (w : Worker) : Stage → Prop
  | .exporting _ | .advancing | .deciding | .answered _ => c.AllCaughtUp w w.period
  | .fetching offset _ => ∀ k, 1 ≤ k → k < w.numWorkers →
    (k < offset → c.CaughtUp w.id (w.neighbour k) (w.period + 1)) ∧
    (k = offset → c.CaughtUp w.id (w.neighbour k) w.period ∨
      c.CaughtUp w.id (w.neighbour k) (w.period + 1)) ∧
    (offset < k → c.CaughtUp w.id (w.neighbour k) w.period)
  | .reading offset _ _ | .acknowledging offset _ _ => ∀ k, 1 ≤ k → k < w.numWorkers →
    (k < offset → c.CaughtUp w.id (w.neighbour k) (w.period + 1)) ∧
    (offset ≤ k → c.CaughtUp w.id (w.neighbour k) w.period)
  | .averaging _ | .entering _ => c.AllCaughtUp w (w.period + 1)

/-- How far worker `w` has read in a state of its runner. -/
def Control.Lags (c : Coordinator) (w : Worker) : Control → Prop
  | .boundary b => b.stage.Lags c w
  | .leaving (.broken _) | .signingOff (.broken _) | .panicked _ =>
    ∀ v < c.numWorkers, v ≠ w.id → c.Near v w.period
  | _ => c.AllCaughtUp w w.period

variable {σ : Type} {c c' : Coordinator} {i j v p : Nat}

/-! ## What the steps of others leave alone -/

namespace Coordinator

theorem CaughtUp.near (h : c.CaughtUp i v p) (hle : (c.box v).next i ≤ (c.box v).completed) :
    c.Near v p := by
  rcases h with h | ⟨h, -⟩
  · exact .inl (by omega)
  · exact .inr h

theorem CaughtUp.near_of_succ (h : c.CaughtUp i v (p + 1))
    (hle : (c.box v).next i ≤ (c.box v).completed) : c.Near v p := by
  rcases h with h | ⟨h, -⟩
  · exact .inl (by omega)
  · exact .inr h

theorem CaughtUp.frame (h : c.CaughtUp i v p) (heff : c.Effect j c') (hj : j < c.numWorkers)
    (hc : c.AllLogs) (hv : v < c.numWorkers) (hne : i ≠ j) : c'.CaughtUp i v p := by
  unfold CaughtUp
  rw [heff.next_eq hj hc hne, heff.margin_eq]
  rcases h with h | ⟨hclosed, hnext, hle⟩
  · exact .inl h
  · obtain ⟨hclosed', hsize⟩ := (heff.grows hj hc hv).closed hclosed
    exact .inr ⟨hclosed', by rw [hsize]; exact hnext, by rw [hsize]; exact hle⟩

theorem Near.frame (h : c.Near v p) (heff : c.Effect j c') (hj : j < c.numWorkers)
    (hc : c.AllLogs) (hv : v < c.numWorkers) : c'.Near v p := by
  unfold Near
  rw [heff.margin_eq]
  rcases h with h | hclosed
  · have := heff.completed_le hj hc hv
    exact .inl (by omega)
  · exact .inr ((heff.grows hj hc hv).closed hclosed).1

/-- How far a worker has read depends on the other mailboxes alone. -/
theorem AllCaughtUp.congr {w w' : Worker} {p' : Nat} (h : c.AllCaughtUp w p)
    (hnum : c'.numWorkers = c.numWorkers) (hmargin : c'.margin = c.margin)
    (hbox : ∀ v ≠ w.id, c'.box v = c.box v) (hid : w'.id = w.id) (hp : p' = p) :
    c'.AllCaughtUp w' p' := by
  intro v hv hvw
  subst hp
  rw [hnum] at hv
  rw [hid] at hvw ⊢
  unfold CaughtUp
  rw [hbox v hvw, hmargin]
  exact h v hv hvw

/-- Before the margin is reached nothing is due. -/
theorem CaughtUp.succ_of_lt (h : c.CaughtUp i v p) (hp : p < c.margin) :
    c.CaughtUp i v (p + 1) := by
  rcases h with h | ⟨-, -, hle⟩
  · exact .inl (by omega)
  · omega

end Coordinator

theorem Stage.Lags.frame {w : Worker} {stage : Stage} (h : stage.Lags c w) (heff : c.Effect j c')
    (hj : j < c.numWorkers) (hc : c.AllLogs) (hne : w.id ≠ j) (hw : w.numWorkers = c.numWorkers) :
    stage.Lags c' w := by
  have hkeep {v p : Nat} (hv : v < c.numWorkers) (hcaught : c.CaughtUp w.id v p) :
      c'.CaughtUp w.id v p := hcaught.frame heff hj hc hv hne
  have hnb (hpos : 0 < w.numWorkers) (k : Nat) : w.neighbour k < c.numWorkers :=
    hw ▸ w.neighbour_lt hpos k
  cases stage with
  | fetching offset t =>
    intro k hk hlt
    have hv := hnb (by omega) k
    obtain ⟨hbefore, hat, hafter⟩ := h k hk hlt
    exact ⟨fun hko => hkeep hv (hbefore hko), fun hko => (hat hko).imp (hkeep hv) (hkeep hv),
      fun hko => hkeep hv (hafter hko)⟩
  | reading offset t q =>
    intro k hk hlt
    have hv := hnb (by omega) k
    obtain ⟨hbefore, hafter⟩ := h k hk hlt
    exact ⟨fun hko => hkeep hv (hbefore hko), fun hko => hkeep hv (hafter hko)⟩
  | acknowledging offset t q =>
    intro k hk hlt
    have hv := hnb (by omega) k
    obtain ⟨hbefore, hafter⟩ := h k hk hlt
    exact ⟨fun hko => hkeep hv (hbefore hko), fun hko => hkeep hv (hafter hko)⟩
  | _ =>
    intro v hv hvw
    rw [heff.numWorkers_eq] at hv
    exact hkeep hv (h v hv hvw)

/-- The step of another worker changes nothing about how far a worker has read. -/
theorem Control.Lags.frame {w : Worker} {k : Control} (h : k.Lags c w) (heff : c.Effect j c')
    (hj : j < c.numWorkers) (hc : c.AllLogs) (hne : w.id ≠ j) (hw : w.numWorkers = c.numWorkers) :
    k.Lags c' w := by
  have hcaught (h : c.AllCaughtUp w w.period) : c'.AllCaughtUp w w.period := fun v hv hvw => by
    rw [heff.numWorkers_eq] at hv
    exact (h v hv hvw).frame heff hj hc hv hne
  have hnear (h : ∀ v < c.numWorkers, v ≠ w.id → c.Near v w.period) :
      ∀ v < c'.numWorkers, v ≠ w.id → c'.Near v w.period := fun v hv hvw => by
    rw [heff.numWorkers_eq] at hv
    exact (h v hv hvw).frame heff hj hc hv
  cases k with
  | boundary b => exact Stage.Lags.frame h heff hj hc hne hw
  | leaving ending =>
    cases ending with
    | broken f => exact hnear h
    | concluded verdict => exact hcaught h
  | signingOff ending =>
    cases ending with
    | broken f => exact hnear h
    | concluded verdict => exact hcaught h
  | panicked f => exact hnear h
  | _ => exact hcaught h

/-! ## A runner's own step -/

/-- In the course of a boundary every producer is due for the present period or for the next. -/
theorem Stage.Lags.caughtUp {w : Worker} {stage : Stage} (h : stage.Lags c w)
    (hid : w.id < w.numWorkers) (hw : w.numWorkers = c.numWorkers) {v : Nat} (hv : v < c.numWorkers)
    (hvw : v ≠ w.id) : c.CaughtUp w.id v w.period ∨ c.CaughtUp w.id v (w.period + 1) := by
  obtain ⟨offset, hpos, hlt, rfl⟩ := Worker.exists_neighbour hid (hw.symm ▸ hv) hvw
  cases stage with
  | fetching o t =>
    obtain ⟨hbefore, hat, hafter⟩ := h offset hpos hlt
    rcases lt_trichotomy offset o with ho | ho | ho
    · exact .inr (hbefore ho)
    · exact hat ho
    · exact .inl (hafter ho)
  | reading o t q =>
    obtain ⟨hbefore, hafter⟩ := h offset hpos hlt
    exact (lt_or_ge offset o).symm.imp hafter hbefore
  | acknowledging o t q =>
    obtain ⟨hbefore, hafter⟩ := h offset hpos hlt
    exact (lt_or_ge offset o).symm.imp hafter hbefore
  | averaging t => exact .inr (h _ hv hvw)
  | entering length => exact .inr (h _ hv hvw)
  | _ => exact .inl (h _ hv hvw)

/-- A worker is due for the present period or for the next, unless it has broken a rule. -/
theorem Control.Lags.caughtUp {w : Worker} {k : Control} (h : k.Lags c w)
    (hgood : k.isBroken = false) (hid : w.id < w.numWorkers) (hw : w.numWorkers = c.numWorkers)
    {v : Nat} (hv : v < c.numWorkers) (hvw : v ≠ w.id) :
    c.CaughtUp w.id v w.period ∨ c.CaughtUp w.id v (w.period + 1) := by
  cases k with
  | boundary b => exact Stage.Lags.caughtUp h hid hw hv hvw
  | leaving ending =>
    cases ending with
    | broken f => cases hgood
    | concluded verdict => exact .inl (h v hv hvw)
  | signingOff ending =>
    cases ending with
    | broken f => cases hgood
    | concluded verdict => exact .inl (h v hv hvw)
  | panicked f => cases hgood
  | _ => exact .inl (h v hv hvw)

/-- However a worker stands, it has not left an open producer behind. -/
theorem Control.Lags.near {w : Worker} {k : Control} (h : k.Lags c w)
    (hid : w.id < w.numWorkers) (hw : w.numWorkers = c.numWorkers)
    (hle : ∀ v < c.numWorkers, (c.box v).next w.id ≤ (c.box v).completed) {v : Nat}
    (hv : v < c.numWorkers) (hvw : v ≠ w.id) : c.Near v w.period := by
  cases hbroken : k.isBroken with
  | false =>
    exact (h.caughtUp hbroken hid hw hv hvw).elim (·.near (hle v hv)) (·.near_of_succ (hle v hv))
  | true =>
    unfold Control.isBroken at hbroken
    split at hbroken
    · exact h v hv hvw
    · exact h v hv hvw
    · exact h v hv hvw
    · cases hbroken

/-! ### One stage of a boundary after another -/

/-- When the worker turns to its first neighbour, nothing is read yet in this boundary. -/
theorem Stage.lags_fetching_one {w : Worker} {t : Tally} (hall : c.AllCaughtUp w w.period)
    (hid : w.id < w.numWorkers) (hw : w.numWorkers = c.numWorkers) :
    (Stage.fetching 1 t).Lags c w := by
  intro k hk hlt
  have hv : w.neighbour k < c.numWorkers := hw ▸ w.neighbour_lt (by omega) k
  have hne : w.neighbour k ≠ w.id := Worker.neighbour_ne hid hk hlt
  exact ⟨fun h => absurd h (by omega), fun _ => .inl (hall _ hv hne), fun _ => hall _ hv hne⟩

/-- The worker goes on when it has caught up with the neighbour it is at. -/
theorem Stage.Lags.skip {w : Worker} {offset : Nat} {t : Tally}
    (h : (Stage.fetching offset t).Lags c w)
    (hdone : c.CaughtUp w.id (w.neighbour offset) (w.period + 1)) :
    (Stage.fetching (offset + 1) t).Lags c w := by
  intro k hk hlt
  obtain ⟨hbefore, -, hafter⟩ := h k hk hlt
  refine ⟨fun hko => ?_, fun hko => .inl (hafter (by omega)), fun hko => hafter (by omega)⟩
  rcases Nat.lt_succ_iff_lt_or_eq.1 hko with hko | rfl
  · exact hbefore hko
  · exact hdone

/-- The worker reads a set from a neighbour with which it has not caught up yet. -/
theorem Stage.Lags.fetch {w : Worker} {offset : Nat} {t : Tally}
    (h : (Stage.fetching offset t).Lags c w) (q : Nat)
    (hdue : c.CaughtUp w.id (w.neighbour offset) w.period) :
    (Stage.reading offset t q).Lags c w := by
  intro k hk hlt
  obtain ⟨hbefore, -, hafter⟩ := h k hk hlt
  refine ⟨hbefore, fun hko => ?_⟩
  rcases Nat.eq_or_lt_of_le hko with rfl | hko
  · exact hdue
  · exact hafter hko

/-- By the acknowledgement the worker catches up with the neighbour it is at. -/
theorem Stage.Lags.acknowledge {w : Worker} {offset q : Nat} {t : Tally}
    (h : (Stage.acknowledging offset t q).Lags c w) (hid : w.id < w.numWorkers)
    (hw : w.numWorkers = c.numWorkers) (hc : c.AllLogs) (ho : offset < w.numWorkers)
    (hm : c.margin ≤ w.period) (hq : q = w.period - c.margin) :
    (Stage.fetching offset t).Lags
      (c.setBox (w.neighbour offset) ((c.box (w.neighbour offset)).acknowledged w.id q)) w := by
  have hv : w.neighbour offset < c.numWorkers := hw ▸ w.neighbour_lt (by omega) offset
  have hother {k p : Nat} (hk : k < w.numWorkers) (hko : k ≠ offset)
      (hcaught : c.CaughtUp w.id (w.neighbour k) p) :
      (c.setBox (w.neighbour offset) ((c.box (w.neighbour offset)).acknowledged w.id q)).CaughtUp
        w.id (w.neighbour k) p := by
    have hne : w.neighbour k ≠ w.neighbour offset := fun h =>
      hko (Worker.neighbour_inj hid hk ho h)
    unfold Coordinator.CaughtUp
    rw [Coordinator.box_setBox hv, if_neg hne]
    exact hcaught
  intro k hk hlt
  obtain ⟨hbefore, hafter⟩ := h k hk hlt
  refine ⟨fun hko => hother hlt hko.ne (hbefore hko), fun hko => .inr (.inl ?_),
    fun hko => hother hlt hko.ne' (hafter hko.le)⟩
  -- the cursor has moved past the set that was due
  subst hko
  have hsize : w.id < (c.box (w.neighbour k)).cursors.size := by
    rw [(hc _ hv).size_cursors, ← hw]
    exact hid
  rw [Coordinator.box_setBox_self hv, Mailbox.next_acknowledged _ hsize, if_pos rfl]
  show q + 1 = w.period + 1 - c.margin
  omega

namespace Runner

variable {r r' : Runner σ} {events : List Event}

theorem lags_boundary {b : Boundary} {stage : Stage} (h : r.control.Lags c r.worker)
    (hr : r.control = .boundary b) (hb : b.stage = stage) : stage.Lags c r.worker := by
  rw [hr] at h
  rw [← hb]
  exact h

/-- With a producer from which no set is fetched the worker has caught up. -/
theorem caughtUp_of_fetch_none (hid : r.worker.id < c.numWorkers) (hc : c.AllLogs)
    (hw : r.worker.numWorkers = c.numWorkers) {offset : Nat} (hpos : 1 ≤ offset)
    (hlt : offset < r.worker.numWorkers)
    (hle : ∀ v < c.numWorkers, (c.box v).next r.worker.id ≤ (c.box v).completed)
    (hf : c.fetch (r.worker.neighbour offset) r.worker.id (r.worker.importPeriod c.margin) =
      .ok none)
    (hdue : c.CaughtUp r.worker.id (r.worker.neighbour offset) r.worker.period ∨
      c.CaughtUp r.worker.id (r.worker.neighbour offset) (r.worker.period + 1)) :
    c.CaughtUp r.worker.id (r.worker.neighbour offset) (r.worker.period + 1) := by
  rcases hdue with hdue | hdue
  · have hnone := fetch_none_cases hid hc hw hpos hlt hle hf
    unfold Worker.importPeriod at hnone
    rcases hdue with hnext | ⟨hclosed, hnext, hpast⟩
    · rcases hnone with hlt' | ⟨hclosed, hall⟩
      · omega
      · exact .inr ⟨hclosed, hall, by omega⟩
    · exact .inr ⟨hclosed, hnext, by omega⟩
  · exact hdue

/-- A worker that holds a set has not caught up with its producer before. -/
theorem caughtUp_of_holds {offset q : Nat} (hholds : c.Holds r.worker offset q)
    (hmargin : c.margin ≤ r.worker.period)
    (hdue : c.CaughtUp r.worker.id (r.worker.neighbour offset) r.worker.period ∨
      c.CaughtUp r.worker.id (r.worker.neighbour offset) (r.worker.period + 1)) :
    c.CaughtUp r.worker.id (r.worker.neighbour offset) r.worker.period ∧
      q = r.worker.period - c.margin := by
  obtain ⟨-, -, hnext, hpast, hperiod⟩ := hholds
  unfold Worker.importPeriod at hperiod
  rcases hdue with (hdue | ⟨-, hdue, -⟩) | (hdue | ⟨-, hdue, -⟩)
  · exact ⟨.inl hdue, by omega⟩
  · omega
  · omega
  · omega

/-- A runner has read as far as it should after its own step. -/
theorem Step.lags (h : Step r c events r' c') (hid : r.worker.id < c.numWorkers) (hc : c.AllLogs)
    (hw : r.worker.numWorkers = c.numWorkers) (hfits : r.control.Fits c r.worker)
    (hle : ∀ v < c.numWorkers, ∀ i, (c.box v).next i ≤ (c.box v).completed)
    (hmode : r.worker.config.nonDeterministic = false) (hlags : r.control.Lags c r.worker) :
    r'.control.Lags c' r'.worker := by
  have heff := h.effect hid hc hw hfits
  have hnum := heff.numWorkers_eq
  have hmargin := heff.margin_eq
  have hown (m : Mailbox) (v : Nat) (hv : v ≠ r.worker.id) :
      (c.setBox r.worker.id m).box v = c.box v := by
    rw [Coordinator.box_setBox hid, if_neg hv]
  have hle' := fun v hv => hle v hv r.worker.id
  have hnear := fun v hv hvw => hlags.near (by rw [hw]; exact hid) hw hle' (v := v) hv hvw
  cases h with
  | stay => exact hlags
  | start hr hboard =>
    rw [hr] at hlags
    exact Coordinator.AllCaughtUp.congr hlags hnum hmargin
      (fun v _ => Coordinator.box_congr hboard.mailboxes_eq v) rfl rfl
  | serve hr hq =>
    rw [hr] at hlags
    exact Coordinator.AllCaughtUp.congr hlags hnum hmargin (fun _ _ => rfl) hq.id_eq hq.period_eq
  | take hr hk =>
    rw [hr] at hlags
    rcases hk with rfl | ⟨f, rfl⟩
    · exact hlags
    · exact fun v hv hvw => hnear v hv hvw
  | arrive hr =>
    rw [hr] at hlags
    exact hlags
  | pass hr =>
    rw [hr] at hlags
    exact hlags
  | conclude hr =>
    rw [hr] at hlags
    exact hlags
  | reply hr hb => exact lags_boundary hlags hr hb
  | sort hr hb hq hstage =>
    have hall := Coordinator.AllCaughtUp.congr (lags_boundary hlags hr hb) hnum hmargin
      (fun _ _ => rfl) hq.id_eq hq.period_eq
    rcases hstage with rfl | ⟨d', rfl⟩ <;> exact hall
  | publish hr hb hq =>
    exact Coordinator.AllCaughtUp.congr (lags_boundary hlags hr hb) hnum hmargin (hown _) hq.id_eq
      hq.period_eq
  | advance hr hb hq _ =>
    rename_i b w n q _
    have hall : c.AllCaughtUp r.worker r.worker.period := lags_boundary hlags hr hb
    show Stage.Lags _ w (if _ then _ else _)
    split
    · rename_i hp
      rw [hq.period_eq] at hp
      have hsucc : c.AllCaughtUp r.worker (r.worker.period + 1) :=
        fun v hv hvw => (hall v hv hvw).succ_of_lt hp
      exact hsucc.congr hnum hmargin (hown _) hq.id_eq (by rw [hq.period_eq])
    · exact Stage.lags_fetching_one (hall.congr hnum hmargin (hown _) hq.id_eq hq.period_eq)
        (by rw [hq.id_eq, hq.numWorkers_eq, hw]; exact hid) (by rw [hq.numWorkers_eq, hw, hnum])
  | skip hr hb ho hf =>
    have hfetching := lags_boundary hlags hr hb
    obtain ⟨-, -, -, -, hpos⟩ := fits_boundary hfits hr hb
    obtain ⟨-, hat, -⟩ := hfetching _ hpos ho
    exact hfetching.skip (caughtUp_of_fetch_none hid hc hw hpos ho hle' hf (hat rfl))
  | fetch hr hb ho hf =>
    rename_i b offset t set
    have hfetching := lags_boundary hlags hr hb
    obtain ⟨-, -, -, hm, hpos⟩ := fits_boundary hfits hr hb
    obtain ⟨-, hat, -⟩ := hfetching _ hpos ho
    have hholds := holds_of_fetch hid hc hw hpos ho hf
    exact hfetching.fetch set.period (caughtUp_of_holds hholds hm (hat rfl)).1
  | survey hr hb ho =>
    have hfetching := lags_boundary hlags hr hb
    intro v hv hvw
    obtain ⟨k, hpos, hlt, rfl⟩ := Worker.exists_neighbour (by rw [hw]; exact hid)
      (hw.symm ▸ hv) hvw
    exact (hfetching k hpos hlt).1 (hlt.trans_le ho)
  | passOver _ _ h =>
    rw [hmode] at h
    cases h
  | read hr hb => exact lags_boundary hlags hr hb
  | acknowledge hr hb hok =>
    obtain ⟨-, -, -, hm, hholds, -⟩ := fits_boundary hfits hr hb
    have hacknowledging := lags_boundary hlags hr hb
    obtain ⟨-, hq⟩ := caughtUp_of_holds hholds hm
      (.inl ((hacknowledging _ hholds.offset_pos hholds.offset_lt).2 le_rfl))
    rcases acknowledge_eq hid hc hw hholds with ⟨-, f, hf⟩ | ⟨heq, -⟩
    · rw [hok] at hf
      cases hf
    rw [heq]
    exact hacknowledging.acknowledge (by rw [hw]; exact hid) hw hc hholds.offset_lt hm hq
  | average hr hb hq =>
    exact Coordinator.AllCaughtUp.congr (lags_boundary hlags hr hb) hnum hmargin (fun _ _ => rfl)
      hq.id_eq (by rw [hq.period_eq])
  | enter hr hb hq hperiod =>
    exact Coordinator.AllCaughtUp.congr (lags_boundary hlags hr hb) hnum hmargin (fun _ _ => rfl)
      hq.id_eq hperiod
  | decide hr hb => exact lags_boundary hlags hr hb
  | fail _ _ _ hw' hperiod =>
    intro v hv hvw
    rw [hw'.id_eq] at hvw
    rw [hnum] at hv
    rw [hperiod]
    exact (hnear v hv hvw).frame heff hid hc hv
  | give _ hq =>
    intro v hv hvw
    rw [hq.id_eq] at hvw
    rw [hq.period_eq]
    exact hnear v hv hvw
  | report hr =>
    rw [hr] at hlags
    exact hlags
  | close hr =>
    rw [hr] at hlags
    exact Coordinator.AllCaughtUp.congr hlags hnum hmargin (hown _) rfl rfl
  | leave hr =>
    rename_i ending n
    rw [hr] at hlags
    cases ending with
    | broken f =>
      intro v hv hvw
      rw [hnum] at hv
      exact (hnear v hv hvw).frame heff hid hc hv
    | concluded verdict => exact Coordinator.AllCaughtUp.congr hlags hnum hmargin (hown _) rfl rfl
  | signOff hr hboard hk =>
    have hbox (v : Nat) := Coordinator.box_congr hboard.mailboxes_eq v
    rcases hk with ⟨f, rfl⟩ | ⟨verdict, rfl, rfl⟩
    · intro v hv hvw
      rw [hnum] at hv
      exact (hnear v hv hvw).frame heff hid hc hv
    · rw [hr] at hlags
      exact Coordinator.AllCaughtUp.congr hlags hnum hmargin (fun v _ => hbox v) rfl rfl
  | handIn hr hk =>
    rcases hk with ⟨f, rfl⟩ | ⟨stats, -, rfl⟩
    · exact fun v hv hvw => hnear v hv hvw
    · rw [hr] at hlags
      exact hlags

end Runner

/-! ## Whole exchanges -/

namespace Exchange

variable {config : Config} {x : Exchange σ}

/-- How far all workers of an exchange have read. -/
def Lagging (x : Exchange σ) : Prop :=
  ∀ (i : Nat) (r : Runner σ), x.runners[i]? = some r → r.control.Lags x.shared.coordinator r.worker

theorem Fresh.lagging (h : x.Fresh config) : x.Lagging := by
  intro i r hr
  rw [h.control_eq i r hr]
  intro v hv _
  rw [h.numWorkers_eq] at hv
  refine .inl ?_
  rw [h.box_eq v hv, Mailbox.next_fresh, h.worker hr, Nat.zero_sub]

theorem Lagging.turn (h : x.Lagging) (hx : x.Standing config)
    (hmode : config.nonDeterministic = false) (E : Engine σ) (i : Nat) : (x.turn E i).Lagging := by
  rcases hx.turn_cases E i with ⟨heq, -⟩ | ⟨r, r', hr, hstep, heff, hrunners⟩
  · rw [heq]
    exact h
  · have hi := hx.lt_mailboxes (hx.lt_numWorkers hr)
    have hw := hx.worker_numWorkers_eq hr
    intro j s hs
    rw [hrunners] at hs
    split at hs
    · obtain rfl := Option.some.inj hs
      obtain ⟨hid, -, hconfig, -, hfits⟩ := hx.runner i r hr
      exact hstep.lags (by rw [hid]; exact hi) hx.logs hw hfits
        (by rw [hx.numWorkers_eq]; exact hx.next_le) (by rw [hconfig]; exact hmode) (h i r hr)
    · rename_i hji
      have hstands := hx.runner j s hs
      exact (h j s hs).frame heff hi hx.logs (by rw [hstands.id_eq]; exact hji)
        (hx.worker_numWorkers_eq hs)

/-- How far all workers have read after a schedule. -/
theorem Fresh.lagging_follow (h : x.Fresh config) (hmode : config.nonDeterministic = false)
    (E : Engine σ) (schedule : List Nat) : (x.follow E schedule).Lagging :=
  h.standing.invariant E h.lagging (fun _ i hy hlag => hlag.turn hy hmode E i) schedule

/-- No worker has left another one behind while that was open. -/
theorem Lagging.near (h : x.Lagging) (hx : x.Standing config) {i v : Nat} {r : Runner σ}
    (hr : x.runners[i]? = some r) (hv : v < config.numWorkers) (hvi : v ≠ i) :
    x.shared.coordinator.Near v r.worker.period := by
  obtain ⟨hid, hnum, -, -, -⟩ := hx.runner i r hr
  have hi := hx.lt_numWorkers hr
  refine (h i r hr).near (by rw [hid, hnum]; exact hi) (hx.worker_numWorkers_eq hr)
    (fun u hu => ?_) (hx.lt_mailboxes hv) (by rw [hid]; exact hvi)
  rw [hx.numWorkers_eq] at hu
  exact hx.next_le u hu _

/-- So no worker is ahead of an open producer by more than the margin. -/
theorem Lagging.period_le_of_open (h : x.Lagging) (hx : x.Standing config) {i v : Nat}
    {r : Runner σ} (hr : x.runners[i]? = some r) (hv : v < config.numWorkers)
    (hopen : (x.shared.coordinator.box v).isClosed = false) :
    r.worker.period ≤ (x.shared.coordinator.box v).past.size + x.shared.coordinator.margin := by
  by_cases hvi : v = i
  · obtain ⟨hid, -, -, -, hfits⟩ := hx.runner i r hr
    have hle := hfits.size_past.1
    rw [hid, ← hvi] at hle
    omega
  · rcases h.near hx hr hv hvi with hle | hclosed
    · rwa [Mailbox.completed, hopen] at hle
    · rw [hopen] at hclosed
      cases hclosed

/-- Nor has it left more than the margin unread in the mailbox of an open producer, unless it has
broken a rule. -/
theorem Lagging.period_le_next (h : x.Lagging) (hx : x.Standing config) {i v : Nat}
    {r : Runner σ} (hr : x.runners[i]? = some r) (hgood : r.control.isBroken = false)
    (hv : v < config.numWorkers) (hvi : v ≠ i)
    (hopen : (x.shared.coordinator.box v).isClosed = false) :
    r.worker.period ≤ (x.shared.coordinator.box v).next i + x.shared.coordinator.margin := by
  obtain ⟨hid, hnum, -, -, -⟩ := hx.runner i r hr
  have hi := hx.lt_numWorkers hr
  have hcaught := (h i r hr).caughtUp hgood (by rw [hid, hnum]; exact hi)
    (hx.worker_numWorkers_eq hr) (hx.lt_mailboxes hv) (by rw [hid]; exact hvi)
  rw [hid] at hcaught
  unfold Coordinator.CaughtUp at hcaught
  rw [hopen] at hcaught
  rcases hcaught with (hnext | ⟨hclosed, -⟩) | (hnext | ⟨hclosed, -⟩)
  · omega
  · cases hclosed
  · omega
  · cases hclosed

end Exchange

end ClauseExchange
