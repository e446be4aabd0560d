import ClauseExchange.Proofs.Exchange.Standing

/-!
# How many workers run

A worker runs from its registration to its signing off. `Exchange.running` are the workers that do,
and `Exchange.Counted` says that the coordinator counts them. Therefore no worker registers in vain
(`Exchange.Counted.start_ok`), nor signs off in vain (`Exchange.Counted.stop_ok`).

* `Runner.Step.live_eq` says that only registering and signing off change the count.
* `Exchange.Assembled.counted_follow` says that the count is right after every schedule.
-/

namespace ClauseExchange

/-- Whether a worker has registered and not signed off. -/
def Control.isRunning : Control → Bool
  | .ready | .handingIn _ | .finished _ | .panicked _ => false
  | _ => true

variable {σ : Type}

/-- Nothing but registering and signing off changes the number of running workers. -/
theorem Runner.Step.live_eq {r r' : Runner σ} {c c' : Coordinator} {events : List Event}
    (h : r.Step c events r' c') (hready : r.control ≠ .ready)
    (hsigning : ∀ ending, r.control ≠ .signingOff ending) :
    c'.live = c.live ∧ c'.launched = c.launched ∧ r'.control.isRunning = r.control.isRunning ∧
      r'.control ≠ .ready := by
  have hack (v i q : Nat) : (c.acknowledge v i q).2.live = c.live ∧
      (c.acknowledge v i q).2.launched = c.launched := by
    rw [Coordinator.acknowledge, Coordinator.onMailbox_snd]
    exact ⟨rfl, rfl⟩
  cases h with
  | stay => exact ⟨rfl, rfl, rfl, hready⟩
  | start hr => exact absurd hr hready
  | signOff hr => exact absurd hr (hsigning _)
  | take hr hk => rcases hk with rfl | ⟨f, rfl⟩ <;> rw [hr] <;> exact ⟨rfl, rfl, rfl, by simp⟩
  | acknowledge hr => rw [hr]; exact ⟨(hack _ _ _).1, (hack _ _ _).2, rfl, by simp⟩
  | fail _ hr _ _ _ _ hcases =>
    rw [hr]
    rcases hcases with rfl | ⟨n, f, -, -, rfl⟩ | ⟨offset, t, q, f, -, -, rfl⟩
    · exact ⟨rfl, rfl, rfl, by simp⟩
    · exact ⟨rfl, rfl, rfl, by simp⟩
    · exact ⟨(hack _ _ _).1, (hack _ _ _).2, rfl, by simp⟩
  | give hr =>
    rcases hr with hr | hr | ⟨verdict, f, hr, -⟩
    · exact absurd hr hready
    · rw [hr]
      exact ⟨rfl, rfl, rfl, by simp⟩
    · rw [hr]
      exact ⟨rfl, rfl, rfl, by simp⟩
  | handIn hr hk =>
    rw [hr]
    rcases hk with ⟨f, rfl⟩ | ⟨stats, -, rfl⟩ <;> exact ⟨rfl, rfl, rfl, by simp⟩
  | _ =>
    rw [‹r.control = _›]
    exact ⟨rfl, rfl, rfl, by simp⟩

/-- Nobody runs at the beginning, and there are not too many workers to be counted. -/
theorem Coordinator.live_of_create {numWorkers margin periodLength : Nat} {c : Coordinator}
    (h : create numWorkers margin periodLength = .ok c) :
    c.live = 0 ∧ c.launched = false ∧ numWorkers < Word.bound := by
  unfold create at h
  split at h
  · cases h
  · obtain ⟨_, hreserve, h⟩ := exists_of_bind_eq_ok h
    obtain ⟨boxes, -, h⟩ := exists_of_bind_eq_ok h
    obtain rfl := Except.ok.inj h
    refine ⟨rfl, rfl, ?_⟩
    unfold Mailbox.reserve at hreserve
    split at hreserve
    · rename_i hle
      simp only [mailboxBytes, Mailbox.maxTableBytes] at hle
      rw [Word.bound]
      omega
    · cases hreserve

namespace Exchange

variable {config : Config} {x : Exchange σ} {i : Nat} {r : Runner σ}

/-- The workers that run. -/
def running (x : Exchange σ) : Finset Nat :=
  (Finset.range x.runners.size).filter fun i => x.runners[i]?.any (·.control.isRunning)

/-- The coordinator counts the workers that run. -/
structure Counted (x : Exchange σ) : Prop where
  live_eq : x.shared.coordinator.live = x.running.card
  launched_iff : x.shared.coordinator.launched = true ↔
    ∃ (i : Nat) (r : Runner σ), x.runners[i]? = some r ∧ r.control ≠ .ready
  size_lt : x.runners.size < Word.bound

theorem mem_running (hr : x.runners[i]? = some r) :
    i ∈ x.running ↔ r.control.isRunning = true := by
  have hi := (Array.getElem?_eq_some_iff.1 hr).1
  rw [running, Finset.mem_filter, Finset.mem_range, and_iff_right hi, hr, Option.any_some]

theorem running_turn (E : Engine σ) (hr : x.runners[i]? = some r) :
    (x.turn E i).running =
      if (r.step E x.shared).1.control.isRunning then insert i x.running
      else x.running.erase i := by
  have hi := (Array.getElem?_eq_some_iff.1 hr).1
  have hsize : (x.turn E i).runners.size = x.runners.size := by
    rw [turn_of_some E hr, Array.size_setIfInBounds]
  ext j
  have hmem : j ∈ (x.turn E i).running ↔ j < x.runners.size ∧
      (if j = i then some (r.step E x.shared).1 else x.runners[j]?).any (·.control.isRunning) := by
    rw [running, Finset.mem_filter, Finset.mem_range, hsize, runners_turn E hr]
  rw [hmem]
  by_cases hji : j = i
  · subst hji
    rw [if_pos rfl, Option.any_some, and_iff_right hi]
    split <;> simp [*]
  · have hrest : j ∈ x.running ↔ j < x.runners.size ∧ x.runners[j]?.any (·.control.isRunning) := by
      rw [running, Finset.mem_filter, Finset.mem_range]
    rw [if_neg hji, ← hrest]
    split <;> simp [hji]

theorem not_mem_running (hr : x.runners[i]? = some r) (hready : r.control = .ready) :
    i ∉ x.running := by
  rw [mem_running hr, hready]
  exact Bool.false_ne_true

namespace Counted

/-- A worker that has not registered can. -/
theorem start_ok (h : x.Counted) (hr : x.runners[i]? = some r) (hready : r.control = .ready) :
    Word.add x.shared.coordinator.live 1 = .ok (x.shared.coordinator.live + 1) := by
  have hi := (Array.getElem?_eq_some_iff.1 hr).1
  have hsub : insert i x.running ⊆ Finset.range x.runners.size :=
    Finset.insert_subset (Finset.mem_range.2 hi) (Finset.filter_subset _ _)
  have hcard := Finset.card_le_card hsub
  rw [Finset.card_insert_of_notMem (not_mem_running hr hready), Finset.card_range,
    ← h.live_eq] at hcard
  exact Word.add_eq_ok_iff.2 ⟨rfl, hcard.trans_lt h.size_lt⟩

/-- A worker that runs is counted. -/
theorem live_pos (h : x.Counted) (hr : x.runners[i]? = some r)
    (hrunning : r.control.isRunning = true) : 0 < x.shared.coordinator.live := by
  rw [h.live_eq]
  exact Finset.card_pos.2 ⟨i, (mem_running hr).2 hrunning⟩

/-- A worker that runs can sign off. -/
theorem stop_ok (h : x.Counted) (hr : x.runners[i]? = some r)
    (hrunning : r.control.isRunning = true) : x.shared.coordinator.stop =
      (.ok (), { x.shared.coordinator with live := x.shared.coordinator.live - 1 }) :=
  if_neg (h.live_pos hr hrunning).ne'

/-- What a step does to the count. -/
theorem step (h : x.Counted) (hx : x.Standing config) (E : Engine σ) (hr : x.runners[i]? = some r) :
    (r.step E x.shared).2.coordinator.live = (x.turn E i).running.card ∧
      (r.step E x.shared).2.coordinator.launched = true ∧
      (r.step E x.shared).1.control ≠ .ready := by
  have hlaunched (hne : r.control ≠ .ready) : x.shared.coordinator.launched = true :=
    h.launched_iff.2 ⟨i, r, hr, hne⟩
  rw [running_turn E hr]
  by_cases hready : r.control = .ready
  · rw [Runner.step_ready E hready (h.start_ok hr hready)]
    refine ⟨?_, rfl, by simp⟩
    show x.shared.coordinator.live + 1 = (insert i x.running).card
    rw [Finset.card_insert_of_notMem (not_mem_running hr hready), ← h.live_eq]
  by_cases hsigning : ∃ ending, r.control = .signingOff ending
  · obtain ⟨ending, hsigning⟩ := hsigning
    have hmem : i ∈ x.running := by
      rw [mem_running hr, hsigning]
      rfl
    have hafter : (Runner.afterSignOff ending (.ok ())).isRunning = false ∧
        Runner.afterSignOff ending (.ok ()) ≠ .ready := by
      cases ending <;> exact ⟨rfl, by simp [Runner.afterSignOff]⟩
    rw [Runner.step_signingOff E hsigning (h.live_pos hr (by rw [hsigning]; rfl))]
    refine ⟨?_, hlaunched hready, hafter.2⟩
    rw [if_neg (by rw [hafter.1]; exact Bool.false_ne_true), Finset.card_erase_of_mem hmem,
      ← h.live_eq]
  · push Not at hsigning
    have hid : r.worker.id < x.shared.coordinator.numWorkers := by
      rw [(hx.runner i r hr).id_eq]
      exact hx.lt_mailboxes (hx.lt_numWorkers hr)
    obtain ⟨hlive, hlaunch, hrunning, hnot⟩ :=
      (r.step_cases E x.shared hid).live_eq hready hsigning
    refine ⟨?_, hlaunch.trans (hlaunched hready), hnot⟩
    rw [hlive, h.live_eq, hrunning]
    by_cases hmem : i ∈ x.running
    · rw [if_pos ((mem_running hr).1 hmem), Finset.insert_eq_of_mem hmem]
    · rw [if_neg (mt (mem_running hr).2 hmem), Finset.erase_eq_of_notMem hmem]

theorem turn (h : x.Counted) (hx : x.Standing config) (E : Engine σ) (i : Nat) :
    (x.turn E i).Counted := by
  cases hr : x.runners[i]? with
  | none =>
    rw [turn_of_none E hr]
    exact h
  | some r =>
    obtain ⟨hlive, hlaunched, hnot⟩ := h.step hx E hr
    refine ⟨?_, ?_, ?_⟩
    · rw [← hlive, turn_of_some E hr]
      rfl
    · rw [turn_of_some E hr]
      refine iff_of_true hlaunched ⟨i, (r.step E x.shared).1, ?_, hnot⟩
      rw [← turn_of_some E hr, runners_turn E hr, if_pos rfl]
    · rw [turn_of_some E hr, Array.size_setIfInBounds]
      exact h.size_lt

end Counted

theorem Assembled.counted (h : x.Assembled config) : x.Counted := by
  obtain ⟨hlive, hlaunched, hlt⟩ := Coordinator.live_of_create h.create_eq
  refine ⟨?_, ?_, by rw [h.size_runners]; exact hlt⟩
  · have hnone : x.running = ∅ := by
      refine Finset.eq_empty_of_forall_notMem fun i hi => ?_
      have hsize := Finset.mem_range.1 (Finset.mem_filter.1 hi).1
      have hr := Array.getElem?_eq_getElem hsize
      rw [mem_running hr, h.control_eq i _ hr] at hi
      exact Bool.false_ne_true hi
    rw [hlive, hnone, Finset.card_empty]
  · rw [hlaunched]
    refine iff_of_false Bool.false_ne_true ?_
    rintro ⟨i, r, hr, hne⟩
    exact hne (h.control_eq i r hr)

/-- The number of running workers is right after every schedule. -/
theorem Assembled.counted_follow (h : x.Assembled config) (E : Engine σ) (schedule : List Nat) :
    (x.follow E schedule).Counted :=
  h.fresh.standing.invariant E h.counted (fun _ i hy hcounted => hcounted.turn hy E i) schedule

end Exchange

end ClauseExchange
