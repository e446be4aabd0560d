import ClauseExchange.Proofs.Exchange.Launch
import ClauseExchange.Proofs.Exchange.Step

/-!
# How the workers and their mailboxes stand

`Runner.Standing` says what the mailboxes show of a runner: how many sets its own mailbox has,
whether that is open, and what the runner holds of another one. `Exchange.Standing` puts it together
for all runners, with the fact that every mailbox is a log.

* `Exchange.Standing.turn` says that every turn keeps it.
* `Exchange.standing_follow` says that it holds after every schedule of a launched portfolio.
-/

namespace ClauseExchange

/-- The number of sets that a boundary has completed for the present period. -/
def Stage.ahead : Stage → Nat
  | .fetching .. | .reading .. | .acknowledging .. | .averaging _ | .entering _ => 1
  | _ => 0

theorem Stage.ahead_le (stage : Stage) : stage.ahead ≤ 1 := by cases stage <;> simp [ahead]

/-- Worker `w` holds the set of `period` of the worker `offset` places further on, the next one that
it has to read there. -/
structure Coordinator.Holds (c : Coordinator) (w : Worker) (offset period : Nat) : Prop where
  offset_pos : 1 ≤ offset
  offset_lt : offset < w.numWorkers
  next_eq : (c.box (w.neighbour offset)).next w.id = period
  past_le : period ≤ (c.box (w.neighbour offset)).past.size
  period_le : period ≤ w.importPeriod c.margin

/-- What worker `w` knows in a stage of a boundary. -/
def Stage.Fits (c : Coordinator) (w : Worker) : Stage → Prop
  | .exporting _ | .advancing | .deciding | .entering _ => w.stopped = false
  | .fetching offset _ => w.stopped = false ∧ c.margin ≤ w.period ∧ 1 ≤ offset
  | .reading offset _ period => w.stopped = false ∧ c.margin ≤ w.period ∧ c.Holds w offset period
  | .acknowledging offset _ period =>
    w.stopped = false ∧ c.margin ≤ w.period ∧ c.Holds w offset period ∧
      ((c.box (w.neighbour offset)).frozen? period).isSome
  | .averaging _ => w.stopped = false ∧ c.margin ≤ w.period
  | .answered goOn => w.stopped = !goOn

/-- What the mailboxes show of worker `w` in a state of its runner. -/
def Control.Fits (c : Coordinator) (w : Worker) : Control → Prop
  | .ready | .searching | .reporting _ | .closing _ =>
    (c.box w.id).isClosed = false ∧ (c.box w.id).past.size = w.period
  | .boundary b =>
    (c.box w.id).isClosed = false ∧ (c.box w.id).past.size = w.period + b.stage.ahead ∧
      b.stage.Fits c w
  | .leaving (.concluded _) => (c.box w.id).isClosed = true ∧ (c.box w.id).past.size = w.period
  | .leaving (.broken _) =>
    w.period ≤ (c.box w.id).past.size ∧ (c.box w.id).past.size ≤ w.period + 1
  | .signingOff _ | .handingIn _ | .finished _ | .panicked _ =>
    (c.box w.id).isClosed = true ∧ w.period ≤ (c.box w.id).past.size ∧
      (c.box w.id).past.size ≤ w.period + 1

variable {σ : Type}

/-- How the runner of worker `i` stands. -/
structure Runner.Standing (config : Config) (c : Coordinator) (i : Nat) (r : Runner σ) : Prop where
  id_eq : r.worker.id = i
  numWorkers_eq : r.worker.numWorkers = config.numWorkers
  config_eq : r.worker.config = config
  period_lt : r.worker.period < Word.bound
  fits : r.control.Fits c r.worker

/-- How an exchange stands. -/
structure Exchange.Standing (config : Config) (x : Exchange σ) : Prop where
  size_runners : x.runners.size = config.numWorkers
  numWorkers_eq : x.shared.coordinator.numWorkers = config.numWorkers
  margin_eq : x.shared.coordinator.margin = config.margin
  periodLength_eq : x.shared.coordinator.periodLength = config.periodLength
  logs : x.shared.coordinator.AllLogs
  /-- Only complete sets have been read. -/
  next_le : ∀ v < config.numWorkers, ∀ i,
    (x.shared.coordinator.box v).next i ≤ (x.shared.coordinator.box v).completed
  runner : ∀ (i : Nat) (r : Runner σ), x.runners[i]? = some r →
    r.Standing config x.shared.coordinator i

/-! ## The other places -/

namespace Worker

theorem neighbour_lt (w : Worker) (h : 0 < w.numWorkers) (offset : Nat) :
    w.neighbour offset < w.numWorkers := Nat.mod_lt _ h

theorem neighbour_congr {w w' : Worker} (hid : w'.id = w.id) (hnum : w'.numWorkers = w.numWorkers) :
    w'.neighbour = w.neighbour := by
  funext k
  rw [neighbour, neighbour, hid, hnum]

theorem neighbour_ne {w : Worker} (hid : w.id < w.numWorkers) {offset : Nat} (hpos : 1 ≤ offset)
    (hlt : offset < w.numWorkers) : w.neighbour offset ≠ w.id := by
  unfold neighbour
  intro h
  rcases lt_or_ge (w.id + offset) w.numWorkers with hsum | hsum
  · rw [Nat.mod_eq_of_lt hsum] at h
    omega
  · rw [Nat.mod_eq_sub_mod hsum, Nat.mod_eq_of_lt (by omega)] at h
    omega

/-- Every other worker is found at some offset. -/
theorem exists_neighbour {w : Worker} (hid : w.id < w.numWorkers) {v : Nat}
    (hv : v < w.numWorkers) (hne : v ≠ w.id) :
    ∃ offset, 1 ≤ offset ∧ offset < w.numWorkers ∧ w.neighbour offset = v := by
  unfold neighbour
  rcases lt_or_gt_of_ne hne with hlt | hgt
  · refine ⟨w.numWorkers + v - w.id, by omega, by omega, ?_⟩
    rw [show w.id + (w.numWorkers + v - w.id) = v + w.numWorkers by omega, Nat.add_mod_right,
      Nat.mod_eq_of_lt hv]
  · refine ⟨v - w.id, by omega, by omega, ?_⟩
    rw [show w.id + (v - w.id) = v by omega, Nat.mod_eq_of_lt hv]

theorem neighbour_inj {w : Worker} (hid : w.id < w.numWorkers) {k l : Nat} (hk : k < w.numWorkers)
    (hl : l < w.numWorkers) (h : w.neighbour k = w.neighbour l) : k = l := by
  unfold neighbour at h
  rcases lt_or_ge (w.id + k) w.numWorkers with hk' | hk' <;>
    rcases lt_or_ge (w.id + l) w.numWorkers with hl' | hl'
  · rw [Nat.mod_eq_of_lt hk', Nat.mod_eq_of_lt hl'] at h
    omega
  · rw [Nat.mod_eq_of_lt hk', Nat.mod_eq_sub_mod hl', Nat.mod_eq_of_lt (by omega)] at h
    omega
  · rw [Nat.mod_eq_of_lt hl', Nat.mod_eq_sub_mod hk', Nat.mod_eq_of_lt (by omega)] at h
    omega
  · rw [Nat.mod_eq_sub_mod hk', Nat.mod_eq_sub_mod hl', Nat.mod_eq_of_lt (by omega),
      Nat.mod_eq_of_lt (by omega)] at h
    omega

end Worker

/-! ## What the steps of others leave alone -/

namespace Coordinator

variable {c c' : Coordinator} {j : Nat} {w : Worker}

theorem Holds.neighbour_lt {offset period : Nat} (h : c.Holds w offset period) :
    w.neighbour offset < w.numWorkers := w.neighbour_lt (by have := h.offset_lt; omega) offset

theorem Holds.frame {offset period : Nat} (h : c.Holds w offset period) (heff : Effect j c c')
    (hj : j < c.numWorkers) (hc : c.AllLogs) (hne : w.id ≠ j) (hw : w.numWorkers = c.numWorkers) :
    c'.Holds w offset period where
  offset_pos := h.offset_pos
  offset_lt := h.offset_lt
  next_eq := by rw [heff.next_eq hj hc hne, h.next_eq]
  past_le := by
    have hlt : w.neighbour offset < c.numWorkers := hw ▸ h.neighbour_lt
    exact h.past_le.trans (heff.grows hj hc hlt).past_le
  period_le := by rw [heff.margin_eq]; exact h.period_le

end Coordinator

theorem Stage.Fits.frame {c c' : Coordinator} {w : Worker} {j : Nat} {stage : Stage}
    (h : stage.Fits c w) (heff : c.Effect j c')
    (hj : j < c.numWorkers) (hc : c.AllLogs) (hne : w.id ≠ j) (hw : w.numWorkers = c.numWorkers) :
    stage.Fits c' w := by
  cases stage with
  | exporting d => exact h
  | advancing => exact h
  | deciding => exact h
  | entering length => exact h
  | answered goOn => exact h
  | fetching offset t => exact ⟨h.1, by rw [heff.margin_eq]; exact h.2.1, h.2.2⟩
  | averaging t => exact ⟨h.1, by rw [heff.margin_eq]; exact h.2⟩
  | reading offset t q =>
    exact ⟨h.1, by rw [heff.margin_eq]; exact h.2.1, h.2.2.frame heff hj hc hne hw⟩
  | acknowledging offset t q =>
    obtain ⟨hst, hmargin, hholds, hfrozen⟩ := h
    refine ⟨hst, by rw [heff.margin_eq]; exact hmargin, hholds.frame heff hj hc hne hw, ?_⟩
    obtain ⟨f, hf⟩ := Option.isSome_iff_exists.1 hfrozen
    have hlt : w.neighbour offset < c.numWorkers := hw ▸ hholds.neighbour_lt
    rw [(heff.grows hj hc hlt).frozen q f hf]
    rfl

theorem Control.Fits.frame {c c' : Coordinator} {w : Worker} {j : Nat} {k : Control}
    (h : k.Fits c w) (heff : c.Effect j c') (hj : j < c.numWorkers) (hc : c.AllLogs)
    (hne : w.id ≠ j) (hw : w.numWorkers = c.numWorkers) : k.Fits c' w := by
  have hclosed := heff.isClosed_eq hj hne
  have hsize := heff.size_past_eq hj hne
  cases k with
  | boundary b =>
    obtain ⟨hopen, hpast, hfits⟩ := h
    exact ⟨by rw [hclosed]; exact hopen, by rw [hsize]; exact hpast,
      hfits.frame heff hj hc hne hw⟩
  | leaving ending => cases ending <;> simpa only [Fits, hclosed, hsize] using h
  | _ => simpa only [Fits, hclosed, hsize] using h

/-- The step of another worker changes nothing about how a runner stands. -/
theorem Runner.Standing.frame {config : Config} {c c' : Coordinator} {i j : Nat} {r : Runner σ}
    (h : r.Standing config c i) (heff : c.Effect j c') (hj : j < c.numWorkers) (hc : c.AllLogs)
    (hne : i ≠ j) (hN : c.numWorkers = config.numWorkers) : r.Standing config c' i where
  id_eq := h.id_eq
  numWorkers_eq := h.numWorkers_eq
  config_eq := h.config_eq
  period_lt := h.period_lt
  fits := h.fits.frame heff hj hc (by rw [h.id_eq]; exact hne) (by rw [h.numWorkers_eq, hN])

/-! ## A runner's own step -/

namespace Runner

variable {config : Config} {c c' : Coordinator} {i : Nat} {r r' : Runner σ} {events : List Event}

theorem fits_boundary {b : Boundary} {stage : Stage} (h : r.control.Fits c r.worker)
    (hr : r.control = .boundary b) (hb : b.stage = stage) :
    (c.box r.worker.id).isClosed = false ∧
      (c.box r.worker.id).past.size = r.worker.period + stage.ahead ∧ stage.Fits c r.worker := by
  rw [hr] at h
  rw [← hb]
  exact h

/-- An acknowledgment that succeeds moves the cursor past the next set. -/
theorem acknowledge_eq (hid : r.worker.id < c.numWorkers) (hc : c.AllLogs)
    (hw : r.worker.numWorkers = c.numWorkers) {offset q : Nat}
    (hholds : c.Holds r.worker offset q) :
    (c.acknowledge (r.worker.neighbour offset) r.worker.id q).2 = c ∧
        (∃ f, (c.acknowledge (r.worker.neighbour offset) r.worker.id q).1 = .error f) ∨
      (c.acknowledge (r.worker.neighbour offset) r.worker.id q).2 =
        c.setBox (r.worker.neighbour offset)
          ((c.box (r.worker.neighbour offset)).acknowledged r.worker.id q) ∧
        (c.acknowledge (r.worker.neighbour offset) r.worker.id q).1 = .ok () := by
  have hlt : r.worker.neighbour offset < c.numWorkers := hw ▸ hholds.neighbour_lt
  have hne := Worker.neighbour_ne (by rw [hw]; exact hid) hholds.offset_pos hholds.offset_lt
  have howner := (hc _ hlt).owner_eq
  unfold Coordinator.acknowledge
  rw [Coordinator.onMailbox_snd, Coordinator.onMailbox_fst _ hlt]
  rcases Mailbox.acknowledge_cases (c.box (r.worker.neighbour offset))
    (by rw [howner]; exact Ne.symm hne) q with ⟨f, hf⟩ | ⟨-, -, hok⟩
  · refine .inl ⟨?_, f, by rw [hf]⟩
    rw [hf]
    exact Coordinator.setBox_of_eq fun _ => rfl
  · rw [hok]
    exact .inr ⟨rfl, rfl⟩

/-- However an acknowledgment ends, it leaves the worker's own mailbox alone. -/
theorem box_acknowledge_own (hid : r.worker.id < c.numWorkers) (hc : c.AllLogs)
    (hw : r.worker.numWorkers = c.numWorkers) {offset q : Nat}
    (hholds : c.Holds r.worker offset q) :
    (c.acknowledge (r.worker.neighbour offset) r.worker.id q).2.box r.worker.id =
      c.box r.worker.id := by
  have hlt : r.worker.neighbour offset < c.numWorkers := hw ▸ hholds.neighbour_lt
  have hne := Worker.neighbour_ne (by rw [hw]; exact hid) hholds.offset_pos hholds.offset_lt
  rcases acknowledge_eq hid hc hw hholds with ⟨heq, -⟩ | ⟨heq, -⟩
  · rw [heq]
  · rw [heq, Coordinator.box_setBox hlt, if_neg (Ne.symm hne)]

theorem margin_acknowledge (c : Coordinator) (v i q : Nat) :
    (c.acknowledge v i q).2.margin = c.margin := by
  rw [Coordinator.acknowledge, Coordinator.onMailbox_snd]
  rfl

/-- What a step does to the mailboxes. -/
theorem Step.effect (h : Step r c events r' c') (hid : r.worker.id < c.numWorkers)
    (hc : c.AllLogs) (hw : r.worker.numWorkers = c.numWorkers) (hfits : r.control.Fits c r.worker) :
    c.Effect r.worker.id c' := by
  have hkeep : c.Effect r.worker.id c := .keep rfl rfl rfl
  have hack {b : Boundary} {offset q : Nat} {t : Tally} (hr : r.control = .boundary b)
      (hb : b.stage = .acknowledging offset t q) :
      c.Effect r.worker.id (c.acknowledge (r.worker.neighbour offset) r.worker.id q).2 := by
    obtain ⟨-, -, -, -, hholds, hfrozen⟩ := fits_boundary hfits hr hb
    rcases acknowledge_eq hid hc hw hholds with ⟨heq, -⟩ | ⟨heq, -⟩
    · rw [heq]
      exact hkeep
    · rw [heq]
      have := hholds.next_eq
      subst this
      exact .acknowledge _ (hw ▸ hholds.neighbour_lt)
        (Worker.neighbour_ne (by rw [hw]; exact hid) hholds.offset_pos hholds.offset_lt) hfrozen
  cases h with
  | start _ hboard => exact .keep hboard.mailboxes_eq hboard.margin_eq hboard.periodLength_eq
  | signOff _ hboard => exact .keep hboard.mailboxes_eq hboard.margin_eq hboard.periodLength_eq
  | publish => exact .append _
  | advance => exact .advance _
  | acknowledge hr hb => exact hack hr hb
  | fail _ hr _ _ _ _ hcases =>
    rcases hcases with rfl | ⟨n, f, -, -, rfl⟩ | ⟨offset, t, q, f, hb, -, rfl⟩
    · exact hkeep
    · exact .advance n
    · exact hack hr hb
  | report => exact .keep rfl rfl rfl
  | close => exact .close _
  | leave => exact .close _
  | _ => exact hkeep

/-- Only an acknowledgment that succeeds moves a cursor. -/
theorem Step.next_cases (h : Step r c events r' c') (hid : r.worker.id < c.numWorkers)
    (hc : c.AllLogs) (hw : r.worker.numWorkers = c.numWorkers) (hfits : r.control.Fits c r.worker) :
    (∀ v i, (c'.box v).next i = (c.box v).next i) ∨
      ∃ b offset t q, r.control = .boundary b ∧ b.stage = .acknowledging offset t q ∧
        c' = c.setBox (r.worker.neighbour offset)
          ((c.box (r.worker.neighbour offset)).acknowledged r.worker.id q) := by
  have hown (m : Mailbox) (hm : ∀ i, m.next i = (c.box r.worker.id).next i) (v i : Nat) :
      ((c.setBox r.worker.id m).box v).next i = (c.box v).next i := by
    rw [Coordinator.box_setBox hid]
    split
    · rename_i hv
      rw [hv, hm]
    · rfl
  have hboard {c' : Coordinator} (hm : c'.mailboxes = c.mailboxes) (v i : Nat) :
      (c'.box v).next i = (c.box v).next i := by rw [Coordinator.box_congr hm]
  have hack {b : Boundary} {offset q : Nat} {t : Tally} (hr : r.control = .boundary b)
      (hb : b.stage = .acknowledging offset t q) := by
    obtain ⟨-, -, -, -, hholds, -⟩ := fits_boundary hfits hr hb
    exact acknowledge_eq hid hc hw hholds
  cases h with
  | start _ hc => exact .inl (hboard hc.mailboxes_eq)
  | signOff _ hc => exact .inl (hboard hc.mailboxes_eq)
  | publish => exact .inl (hown _ fun i => Mailbox.next_append _ _ i)
  | advance => exact .inl (hown _ fun i => Mailbox.next_advance _ _ i)
  | acknowledge hr hb hok =>
    rcases hack hr hb with ⟨-, f, hf⟩ | ⟨heq, -⟩
    · rw [hok] at hf
      cases hf
    · exact .inr ⟨_, _, _, _, hr, hb, heq⟩
  | fail _ hr _ _ _ _ hcases =>
    rcases hcases with rfl | ⟨n, f, -, -, rfl⟩ | ⟨offset, t, q, f, hb, hf, rfl⟩
    · exact .inl fun _ _ => rfl
    · exact .inl (hown _ fun i => Mailbox.next_advance _ _ i)
    · rcases hack hr hb with ⟨heq, -⟩ | ⟨-, hok⟩
      · rw [heq]
        exact .inl fun _ _ => rfl
      · rw [hok] at hf
        cases hf
  | close => exact .inl (hown _ fun i => Mailbox.next_close _ _ i)
  | leave => exact .inl (hown _ fun i => Mailbox.next_close _ _ i)
  | _ => exact .inl (hboard rfl)

/-- What a fetch finds at the cursor. -/
theorem fetch_eq (hid : r.worker.id < c.numWorkers) (hc : c.AllLogs)
    (hw : r.worker.numWorkers = c.numWorkers) {offset : Nat} (hpos : 1 ≤ offset)
    (hlt : offset < r.worker.numWorkers) (period : Nat) :
    c.fetch (r.worker.neighbour offset) r.worker.id period =
      .ok (if period < (c.box (r.worker.neighbour offset)).next r.worker.id then none
        else (c.box (r.worker.neighbour offset)).set?
          ((c.box (r.worker.neighbour offset)).next r.worker.id)) := by
  have hnlt : r.worker.neighbour offset < c.numWorkers := by
    rw [← hw]
    exact r.worker.neighbour_lt (by omega) offset
  have hne := Worker.neighbour_ne (by rw [hw]; exact hid) hpos hlt
  rw [Coordinator.fetch, Coordinator.mailbox_eq hnlt]
  dsimp only
  rw [(hc _ hnlt).fetch_eq hid (Ne.symm hne)]

/-- If no set is fetched, the next one is not due, or there will be none. -/
theorem fetch_none_cases (hid : r.worker.id < c.numWorkers) (hc : c.AllLogs)
    (hw : r.worker.numWorkers = c.numWorkers) {offset : Nat} (hpos : 1 ≤ offset)
    (hlt : offset < r.worker.numWorkers)
    (hle : ∀ v < c.numWorkers, (c.box v).next r.worker.id ≤ (c.box v).completed) {period : Nat}
    (hf : c.fetch (r.worker.neighbour offset) r.worker.id period = .ok none) :
    period < (c.box (r.worker.neighbour offset)).next r.worker.id ∨
      (c.box (r.worker.neighbour offset)).isClosed = true ∧
        (c.box (r.worker.neighbour offset)).next r.worker.id =
          (c.box (r.worker.neighbour offset)).past.size + 1 := by
  have hle := hle (r.worker.neighbour offset) (hw ▸ r.worker.neighbour_lt (by omega) offset)
  rw [fetch_eq hid hc hw hpos hlt, Except.ok.injEq] at hf
  split at hf
  · exact .inl ‹_›
  · have hpast : ¬ (c.box (r.worker.neighbour offset)).next r.worker.id ≤
        (c.box (r.worker.neighbour offset)).past.size := by
      rw [← Mailbox.set?_isSome_iff, hf]
      simp
    unfold Mailbox.completed at hle
    split at hle
    · rename_i hclosed
      exact .inr ⟨hclosed, by omega⟩
    · omega

/-- A set that is fetched is the next one to read, and is held from then on. -/
theorem holds_of_fetch (hid : r.worker.id < c.numWorkers) (hc : c.AllLogs)
    (hw : r.worker.numWorkers = c.numWorkers) {offset : Nat} (hpos : 1 ≤ offset)
    (hlt : offset < r.worker.numWorkers) {set : ClauseSet}
    (hf : c.fetch (r.worker.neighbour offset) r.worker.id (r.worker.importPeriod c.margin) =
      .ok (some set)) : c.Holds r.worker offset set.period := by
  have hnlt : r.worker.neighbour offset < c.numWorkers := by
    rw [← hw]
    exact r.worker.neighbour_lt (by omega) offset
  rw [fetch_eq hid hc hw hpos hlt, Except.ok.injEq] at hf
  split at hf
  · cases hf
  · rename_i hle
    have hperiod := ((hc _ hnlt).set?_spec hf).2
    refine ⟨hpos, hlt, hperiod.symm, ?_, by omega⟩
    rw [hperiod, ← Mailbox.set?_isSome_iff, hf]
    rfl

/-- A runner stands as it should after its own step. -/
theorem Step.fits (h : Step r c events r' c') (hid : r.worker.id < c.numWorkers)
    (hc : c.AllLogs) (hw : r.worker.numWorkers = c.numWorkers) (hfits : r.control.Fits c r.worker) :
    r'.control.Fits c' r'.worker := by
  cases h with
  | stay => exact hfits
  | start hr hboard =>
    rw [hr] at hfits
    have hbox := Coordinator.box_congr hboard.mailboxes_eq r.worker.id
    simpa only [Control.Fits, hbox] using hfits
  | serve hr hq =>
    rw [hr] at hfits
    simpa only [Control.Fits, hq.id_eq, hq.period_eq] using hfits
  | take hr hk =>
    rw [hr] at hfits
    rcases hk with rfl | ⟨f, rfl⟩
    · exact hfits
    · exact ⟨hfits.2.ge, hfits.2.le.trans (Nat.le_succ _)⟩
  | arrive hr hstopped =>
    rw [hr] at hfits
    exact ⟨hfits.1, hfits.2, hstopped⟩
  | pass hr =>
    rw [hr] at hfits
    exact ⟨hfits.1, hfits.2, (Bool.not_not _).symm⟩
  | conclude hr =>
    rw [hr] at hfits
    exact hfits
  | reply hr hb =>
    obtain ⟨hopen, hpast, -⟩ := fits_boundary hfits hr hb
    exact ⟨hopen, hpast⟩
  | sort hr hb hq hstage =>
    obtain ⟨hopen, hpast, hst⟩ := fits_boundary hfits hr hb
    have hst' := hq.stopped_eq.trans hst
    rw [← hq.id_eq] at hopen hpast
    rw [← hq.period_eq] at hpast
    rcases hstage with rfl | ⟨d', rfl⟩ <;> exact ⟨hopen, hpast, hst'⟩
  | publish hr hb hq =>
    obtain ⟨hopen, hpast, hst⟩ := fits_boundary hfits hr hb
    refine ⟨?_, ?_, hq.stopped_eq.trans hst⟩
    · simpa [hq.id_eq, hid] using hopen
    · simpa [hq.id_eq, hq.period_eq, hid, Stage.ahead] using hpast
  | advance hr hb hq hok =>
    rename_i b w n q
    obtain ⟨-, hpast, hst⟩ := fits_boundary hfits hr hb
    obtain ⟨hopen', hpast'⟩ := Mailbox.advance_of_ok hok
    have hbox : (c.setBox r.worker.id ((c.box r.worker.id).advance n).2).box w.id =
        ((c.box r.worker.id).advance n).2 := by rw [hq.id_eq, Coordinator.box_setBox_self hid]
    have hstopped := hq.stopped_eq.trans hst
    refine ⟨by rw [hbox]; exact hopen', ?_, ?_⟩
    · rw [hbox, hpast', hpast, hq.period_eq]
      dsimp only
      split <;> rfl
    · dsimp only
      split
      · exact hstopped
      · rename_i hmargin
        exact ⟨hstopped, not_lt.1 hmargin, le_rfl⟩
  | skip hr hb ho hf =>
    obtain ⟨hopen, hpast, hst, hmargin, hpos⟩ := fits_boundary hfits hr hb
    exact ⟨hopen, hpast, hst, hmargin, hpos.trans (Nat.le_succ _)⟩
  | fetch hr hb ho hf =>
    obtain ⟨hopen, hpast, hst, hmargin, hpos⟩ := fits_boundary hfits hr hb
    exact ⟨hopen, hpast, hst, hmargin, holds_of_fetch hid hc hw hpos ho hf⟩
  | survey hr hb ho =>
    obtain ⟨hopen, hpast, hst, hmargin, -⟩ := fits_boundary hfits hr hb
    exact ⟨hopen, hpast, hst, hmargin⟩
  | passOver hr hb hmode =>
    obtain ⟨hopen, hpast, hst, hmargin, hholds⟩ := fits_boundary hfits hr hb
    exact ⟨hopen, hpast, hst, hmargin, hholds.offset_pos.trans (Nat.le_succ _)⟩
  | read hr hb hf hadd =>
    rename_i b offset q n t t' cs
    obtain ⟨hopen, hpast, hst, hmargin, hholds⟩ := fits_boundary hfits hr hb
    have hlt : r.worker.neighbour offset < c.numWorkers := hw ▸ hholds.neighbour_lt
    rw [Coordinator.frozen?_eq hlt] at hf
    have hsome : ((c.box (r.worker.neighbour offset)).frozen? q).isSome := by rw [hf]; rfl
    exact ⟨hopen, hpast, hst, hmargin, ⟨hholds.1, hholds.2, hholds.3, hholds.4, hholds.5⟩, hsome⟩
  | acknowledge hr hb hok =>
    obtain ⟨hopen, hpast, hst, hmargin, hholds, -⟩ := fits_boundary hfits hr hb
    have hbox := box_acknowledge_own hid hc hw hholds
    exact ⟨by rw [hbox]; exact hopen, by rw [hbox]; exact hpast, hst,
      by rw [margin_acknowledge]; exact hmargin, hholds.offset_pos⟩
  | average hr hb hq =>
    obtain ⟨hopen, hpast, hst, hmargin⟩ := fits_boundary hfits hr hb
    rw [← hq.id_eq] at hopen hpast
    rw [← hq.period_eq] at hpast
    exact ⟨hopen, hpast, hq.stopped_eq.trans hst⟩
  | enter hr hb hq hperiod _ hstopped =>
    obtain ⟨hopen, hpast, hst⟩ := fits_boundary hfits hr hb
    rw [← hq.id_eq] at hopen hpast
    exact ⟨hopen, hpast.trans hperiod.symm, hstopped.trans hst⟩
  | decide hr hb =>
    obtain ⟨hopen, hpast, -⟩ := fits_boundary hfits hr hb
    exact ⟨hopen, hpast, (Bool.not_not _).symm⟩
  | fail _ hr _ hq hperiod _ hcases =>
    rename_i b w e f _ _ _ _
    obtain ⟨-, hpast, hst⟩ := fits_boundary hfits hr rfl
    have hahead := b.stage.ahead_le
    have hkeep : w.period ≤ (c.box w.id).past.size ∧ (c.box w.id).past.size ≤ w.period + 1 := by
      rw [hq.id_eq, hperiod]
      omega
    rcases hcases with rfl | ⟨n, f, hb, -, rfl⟩ | ⟨offset, t, q, f, hb, -, rfl⟩
    · exact hkeep
    · have hadvance := (c.box r.worker.id).size_past_advance n
      rw [hpast, hb] at hadvance
      show _ ≤ _ ∧ _ ≤ _
      rw [hq.id_eq, Coordinator.box_setBox_self hid, hperiod]
      exact hadvance
    · rw [hb] at hst
      show _ ≤ _ ∧ _ ≤ _
      rw [hq.id_eq, box_acknowledge_own hid hc hw hst.2.2.1, ← hq.id_eq]
      exact hkeep
  | give hr hq =>
    have hpast : (c.box r.worker.id).past.size = r.worker.period := by
      rcases hr with hr | hr | ⟨verdict, f, hr, -⟩ <;> rw [hr] at hfits <;> exact hfits.2
    rw [← hq.id_eq, ← hq.period_eq] at hpast
    exact ⟨hpast.ge, hpast.le.trans (Nat.le_succ _)⟩
  | report hr hbest =>
    rw [hr] at hfits
    exact hfits
  | close hr =>
    rw [hr] at hfits
    simpa [Control.Fits, hid] using hfits.2
  | leave hr =>
    rename_i ending n
    have hpast : r.worker.period ≤ (c.box r.worker.id).past.size ∧
        (c.box r.worker.id).past.size ≤ r.worker.period + 1 := by
      rw [hr] at hfits
      cases ending with
      | broken f => exact hfits
      | concluded verdict => exact ⟨hfits.2.ge, hfits.2.le.trans (Nat.le_succ _)⟩
    simpa [Control.Fits, hid] using hpast
  | signOff hr hboard hk =>
    rw [hr] at hfits
    have hbox := Coordinator.box_congr hboard.mailboxes_eq r.worker.id
    rcases hk with ⟨f, rfl⟩ | ⟨verdict, -, rfl⟩ <;> simpa only [Control.Fits, hbox] using hfits
  | handIn hr hk =>
    rw [hr] at hfits
    rcases hk with ⟨f, rfl⟩ | ⟨stats, -, rfl⟩ <;> exact hfits

end Runner

/-- A worker has completed the sets of all earlier periods, and at most that of the present one. -/
theorem Control.Fits.size_past {c : Coordinator} {w : Worker} {k : Control} (h : k.Fits c w) :
    w.period ≤ (c.box w.id).past.size ∧ (c.box w.id).past.size ≤ w.period + 1 := by
  have hbetween (ahead : Nat) (hpast : (c.box w.id).past.size = w.period + ahead)
      (hahead : ahead ≤ 1) :
      w.period ≤ (c.box w.id).past.size ∧ (c.box w.id).past.size ≤ w.period + 1 := by omega
  cases k with
  | boundary b => exact hbetween _ h.2.1 b.stage.ahead_le
  | leaving ending =>
    cases ending with
    | concluded verdict => exact hbetween 0 h.2 (Nat.zero_le 1)
    | broken f => exact h
  | signingOff | handingIn | finished | panicked => exact h.2
  | ready | searching | reporting | closing => exact hbetween 0 h.2 (Nat.zero_le 1)

/-! ## Broken rules -/

/-- Whether a rule has been broken. -/
def Control.isBroken : Control → Bool
  | .leaving (.broken _) | .signingOff (.broken _) | .panicked _ => true
  | _ => false

/-- A broken rule is not mended. -/
theorem Runner.Step.isBroken {r r' : Runner σ} {c c' : Coordinator} {events : List Event}
    (h : r.Step c events r' c') (hbroken : r.control.isBroken = true) :
    r'.control.isBroken = true := by
  have hnot {k : Control} (hk : r.control = k) (hgood : k.isBroken = false) {p : Prop} : p := by
    rw [hk, hgood] at hbroken
    cases hbroken
  cases h with
  | stay => exact hbroken
  | fail => rfl
  | give => rfl
  | leave hr =>
    rename_i ending n
    rw [hr] at hbroken
    cases ending <;> exact hbroken
  | signOff hr _ hk =>
    rcases hk with ⟨f, rfl⟩ | ⟨verdict, rfl, -⟩
    · rfl
    · exact hnot hr rfl
  | _ => exact hnot ‹r.control = _› rfl

/-! ## Whole exchanges -/

namespace Exchange

variable {config : Config} {x : Exchange σ}

theorem Fresh.standing (h : x.Fresh config) : x.Standing config where
  size_runners := h.size_runners
  numWorkers_eq := h.numWorkers_eq
  margin_eq := h.margin_eq
  periodLength_eq := h.periodLength_eq
  logs v hv := by
    rw [h.numWorkers_eq] at hv ⊢
    rw [h.box_eq v hv, h.margin_eq]
    exact Mailbox.isLog_fresh _ _ _
  next_le v hv i := by
    rw [h.box_eq v hv, Mailbox.next_fresh]
    exact Nat.zero_le _
  runner i r hr := by
    have hi : i < config.numWorkers := by
      rw [← h.size_runners]
      exact (Array.getElem?_eq_some_iff.1 hr).1
    have hw := h.worker hr
    refine ⟨by rw [hw], by rw [hw], by rw [hw], by rw [hw]; exact Nat.succ_pos _, ?_⟩
    rw [h.control_eq i r hr, hw]
    show _ = _ ∧ _ = _
    dsimp only
    rw [h.box_eq i hi]
    exact ⟨rfl, rfl⟩

namespace Standing

/-- There is a mailbox for every worker, -/
theorem lt_mailboxes (h : x.Standing config) {v : Nat} (hv : v < config.numWorkers) :
    v < x.shared.coordinator.numWorkers := by
  rw [h.numWorkers_eq]
  exact hv

theorem lt_numWorkers (h : x.Standing config) {i : Nat} {r : Runner σ}
    (hr : x.runners[i]? = some r) : i < config.numWorkers := by
  rw [← h.size_runners]
  exact (Array.getElem?_eq_some_iff.1 hr).1

/-- and a runner. -/
theorem exists_runner (h : x.Standing config) {v : Nat} (hv : v < config.numWorkers) :
    ∃ r, x.runners[v]? = some r := by
  rw [← h.size_runners] at hv
  exact ⟨x.runners[v], Array.getElem?_eq_getElem hv⟩

theorem worker_numWorkers_eq (h : x.Standing config) {i : Nat} {r : Runner σ}
    (hr : x.runners[i]? = some r) : r.worker.numWorkers = x.shared.coordinator.numWorkers := by
  rw [(h.runner i r hr).numWorkers_eq, h.numWorkers_eq]

theorem neighbour_lt (h : x.Standing config) {w : Nat} {r : Runner σ}
    (hr : x.runners[w]? = some r) (offset : Nat) :
    r.worker.neighbour offset < config.numWorkers := by
  have hw := (h.runner w r hr).numWorkers_eq
  rw [← hw]
  refine r.worker.neighbour_lt ?_ offset
  rw [hw]
  exact (Nat.zero_le w).trans_lt (h.lt_numWorkers hr)

/-- A turn is a step of the runner whose turn it is, and leaves the other runners alone. -/
theorem turn_cases (h : x.Standing config) (E : Engine σ) (i : Nat) :
    x.turn E i = x ∧ x.events E i = [] ∨
      ∃ r r', x.runners[i]? = some r ∧
        r.Step x.shared.coordinator (x.events E i) r' (x.turn E i).shared.coordinator ∧
        x.shared.coordinator.Effect i (x.turn E i).shared.coordinator ∧
        ∀ j, (x.turn E i).runners[j]? = if j = i then some r' else x.runners[j]? := by
  cases hr : x.runners[i]? with
  | none => exact .inl ⟨turn_of_none E hr, events_of_none E hr⟩
  | some r =>
    have hi := h.lt_mailboxes (h.lt_numWorkers hr)
    have hw := h.worker_numWorkers_eq hr
    have hstands := h.runner i r hr
    obtain rfl := hstands.id_eq
    have hstep := r.step_cases E x.shared hi
    rw [events_of_some E hr, turn_of_some E hr]
    refine .inr ⟨r, _, rfl, hstep, ?_, fun j => ?_⟩
    · exact hstep.effect hi h.logs hw hstands.fits
    · rw [← turn_of_some E hr]
      exact runners_turn E hr j

/-- Every turn keeps how an exchange stands. -/
theorem turn (h : x.Standing config) (E : Engine σ) (i : Nat) :
    (x.turn E i).Standing config := by
  rcases h.turn_cases E i with ⟨heq, -⟩ | ⟨r, r', hr, hstep, heff, hrunners⟩
  · rw [heq]
    exact h
  · have hi := h.lt_mailboxes (h.lt_numWorkers hr)
    have hw := h.worker_numWorkers_eq hr
    have hstands := h.runner i r hr
    refine ⟨?_, heff.numWorkers_eq.trans h.numWorkers_eq, heff.margin_eq.trans h.margin_eq,
      heff.periodLength_eq.trans h.periodLength_eq, heff.isLog hi h.logs, fun v hv j => ?_,
      fun j s hs => ?_⟩
    · rw [turn_of_some E hr, Array.size_setIfInBounds]
      exact h.size_runners
    · rw [← h.numWorkers_eq] at hv
      exact heff.next_le_completed hi h.logs (by rw [h.numWorkers_eq]; exact h.next_le) hv j
    · rw [hrunners] at hs
      split at hs
      · rename_i hji
        subst hji
        obtain rfl := Option.some.inj hs
        obtain ⟨hid, hnum, hconfig, hlt, hfits⟩ := hstands
        have hsame := hstep.same
        exact ⟨hsame.id_eq.trans hid, hsame.numWorkers_eq.trans hnum, hsame.config_eq.trans hconfig,
          hstep.period_lt hlt, hstep.fits (by rw [hid]; exact hi) h.logs hw hfits⟩
      · rename_i hji
        exact (h.runner j s hs).frame heff hi h.logs hji h.numWorkers_eq

/-- How an exchange stands after a schedule. -/
theorem follow (h : x.Standing config) (E : Engine σ) (schedule : List Nat) :
    (x.follow E schedule).Standing config := by
  induction schedule generalizing x with
  | nil => exact h
  | cons i schedule ih => exact ih (h.turn E i)

/-- What every turn keeps holds after every schedule. -/
theorem invariant (h : x.Standing config) (E : Engine σ) {P : Exchange σ → Prop} (hP : P x)
    (hturn : ∀ y i, y.Standing config → P y → P (y.turn E i)) (schedule : List Nat) :
    P (x.follow E schedule) := by
  induction schedule generalizing x with
  | nil => exact hP
  | cons i schedule ih => exact ih (h.turn E i) (hturn x i h hP)

/-- What holds of a worker and of its journal after every schedule, because its own steps and the
calls of the others keep it. -/
theorem runner_follow (h : x.Standing config) (E : Engine σ) {w : Nat} {r : Runner σ}
    (hr : x.runners[w]? = some r) {P : List Nat → Coordinator → Runner σ → List Event → Prop}
    (nil : P [] x.shared.coordinator r [])
    (idle : ∀ t j q, (x.follow E t).runners[w]? = some q →
      P t (x.follow E t).shared.coordinator q (x.journal E t w) →
      P (t ++ [j]) (x.follow E t).shared.coordinator q (x.journal E t w))
    (own : ∀ t c' q q' new, (x.follow E t).runners[w]? = some q →
      P t (x.follow E t).shared.coordinator q (x.journal E t w) →
      q.Step (x.follow E t).shared.coordinator new q' c' →
      P (t ++ [w]) c' q' (x.journal E t w ++ new))
    (other : ∀ t j c' q, (x.follow E t).runners[w]? = some q →
      P t (x.follow E t).shared.coordinator q (x.journal E t w) → w ≠ j →
      j < (x.follow E t).shared.coordinator.numWorkers →
      (x.follow E t).shared.coordinator.Effect j c' → P (t ++ [j]) c' q (x.journal E t w))
    (t : List Nat) : ∃ q, (x.follow E t).runners[w]? = some q ∧
      P t (x.follow E t).shared.coordinator q (x.journal E t w) := by
  induction t using List.reverseRecOn with
  | nil => exact ⟨r, hr, nil⟩
  | append_singleton t j ih =>
    obtain ⟨q, hq, hP⟩ := ih
    have hy := h.follow E t
    rw [follow_concat]
    rcases hy.turn_cases E j with ⟨heq, hev⟩ | ⟨s, s', hs, hstep, heff, hrunners⟩
    · rw [heq, journal_concat_of_events_eq_nil hev]
      exact ⟨q, hq, idle t j q hq hP⟩
    · rw [journal_concat]
      by_cases hwj : w = j
      · subst hwj
        obtain rfl := Option.some.inj (hs.symm.trans hq)
        rw [if_pos rfl]
        exact ⟨s', by rw [hrunners, if_pos rfl], own t _ s s' _ hq hP hstep⟩
      · rw [if_neg (Ne.symm hwj), List.append_nil]
        exact ⟨q, by rw [hrunners, if_neg hwj]; exact hq,
          other t j _ q hq hP hwj (hy.lt_mailboxes (hy.lt_numWorkers hs)) heff⟩

/-- A broken rule is not mended later. -/
theorem isBroken_follow (h : x.Standing config) (E : Engine σ) (t : List Nat) {i : Nat}
    {r : Runner σ} (hr : x.runners[i]? = some r) (hbroken : r.control.isBroken = true) :
    ∃ r', (x.follow E t).runners[i]? = some r' ∧ r'.control.isBroken = true :=
  h.runner_follow E hr (P := fun _ _ q _ => q.control.isBroken = true) hbroken
    (fun _ _ _ _ hq => hq) (fun _ _ _ _ _ _ hq hstep => hstep.isBroken hq)
    (fun _ _ _ _ _ hq _ _ _ => hq) t

/-- Mailboxes only grow. -/
theorem grows_follow (h : x.Standing config) (E : Engine σ) (schedule : List Nat) {v : Nat}
    (hv : v < config.numWorkers) : (x.shared.coordinator.box v).Grows
      ((x.follow E schedule).shared.coordinator.box v) := by
  induction schedule generalizing x with
  | nil => exact .refl _
  | cons i schedule ih =>
    refine Mailbox.Grows.trans ?_ (ih (h.turn E i))
    rcases h.turn_cases E i with ⟨heq, -⟩ | ⟨r, r', hr, -, heff, -⟩
    · rw [heq]
      exact .refl _
    · exact heff.grows (h.lt_mailboxes (h.lt_numWorkers hr)) h.logs (h.lt_mailboxes hv)

theorem allGrows_follow (h : x.Standing config) (E : Engine σ) (schedule : List Nat) :
    x.shared.coordinator.Grows (x.follow E schedule).shared.coordinator where
  numWorkers_eq := (h.follow E schedule).numWorkers_eq.trans h.numWorkers_eq.symm
  boxes _ hv := h.grows_follow E schedule (by rwa [h.numWorkers_eq] at hv)

end Standing

end Exchange

/-- How a launched portfolio stands after a schedule. -/
theorem Portfolio.standing_follow {engines : List σ} {config : Config} {sensors : Sensors}
    {p : Portfolio σ} (h : launch engines config sensors = .ok p) (E : Engine σ)
    (schedule : List Nat) : (p.toExchange.follow E schedule).Standing config :=
  (fresh_of_launch h).standing.follow E schedule

end ClauseExchange
