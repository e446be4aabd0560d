import ClauseExchange.Portfolio
import ClauseExchange.Proofs.Exchange.Calls

/-!
# How a portfolio begins

`Exchange.Assembled config x` says that the workers of `x` have all been created on one coordinator
and are about to start; a launch that succeeds gives such an exchange
(`Portfolio.assembled_of_launch`), of a configuration that has been validated.
`Exchange.Fresh config x` says what can be seen of it: every mailbox has one open and empty set, and
nobody has read or reported anything.
-/

namespace ClauseExchange

/-- An exchange of `config` in which nothing has happened. -/
structure Exchange.Fresh {σ : Type} (config : Config) (x : Exchange σ) : Prop where
  size_runners : x.runners.size = config.numWorkers
  numWorkers_eq : x.shared.coordinator.numWorkers = config.numWorkers
  margin_eq : x.shared.coordinator.margin = config.margin
  periodLength_eq : x.shared.coordinator.periodLength = config.periodLength
  winner_eq : x.shared.coordinator.winner? = none
  box_eq : ∀ v < config.numWorkers,
    x.shared.coordinator.box v = .fresh v config.numWorkers config.margin
  control_eq : ∀ (i : Nat) (r : Runner σ), x.runners[i]? = some r → r.control = .ready
  worker_eq : ∀ (i : Nat) (r : Runner σ), x.runners[i]? = some r →
    Worker.create i x.shared.coordinator config = .ok r.worker

/-- An exchange whose workers have been created on one coordinator, and have not started. -/
structure Exchange.Assembled {σ : Type} (config : Config) (x : Exchange σ) : Prop where
  create_eq : Coordinator.create config.numWorkers config.margin config.periodLength =
    .ok x.shared.coordinator
  size_runners : x.runners.size = config.numWorkers
  control_eq : ∀ (i : Nat) (r : Runner σ), x.runners[i]? = some r → r.control = .ready
  worker_eq : ∀ (i : Nat) (r : Runner σ), x.runners[i]? = some r →
    Worker.create i x.shared.coordinator config = .ok r.worker

/-- The worker of a runner that has not started. -/
theorem Exchange.Fresh.worker {σ : Type} {config : Config} {x : Exchange σ} (h : x.Fresh config)
    {i : Nat} {r : Runner σ} (hr : x.runners[i]? = some r) :
    r.worker = {
      id := i
      numWorkers := config.numWorkers
      config
      periodLength := config.periodLength
      pace := .start config
      stats := { worker := i } } := by
  have hw := h.worker_eq i r hr
  unfold Worker.create at hw
  split at hw
  · rw [← Except.ok.inj hw, h.numWorkers_eq, h.periodLength_eq]
  · cases hw

/-! ## Creating -/

theorem Coordinator.create_spec {numWorkers margin periodLength : Nat} {c : Coordinator}
    (h : create numWorkers margin periodLength = .ok c) :
    c.numWorkers = numWorkers ∧ c.margin = margin ∧ c.periodLength = periodLength ∧
      c.winner? = none ∧ ∀ v < numWorkers, c.box v = .fresh v numWorkers margin := by
  unfold create at h
  split at h
  · cases h
  · obtain ⟨_, -, h⟩ := exists_of_bind_eq_ok h
    obtain ⟨boxes, hboxes, h⟩ := exists_of_bind_eq_ok h
    obtain rfl := Except.ok.inj h
    obtain ⟨hlen, hall⟩ := getElem_of_mapM_eq_ok hboxes
    rw [List.length_range] at hlen
    refine ⟨by simpa [Coordinator.numWorkers] using hlen, rfl, rfl, rfl, fun v hv => ?_⟩
    have hcreate := hall v (by simpa using hv) (by omega)
    rw [List.getElem_range] at hcreate
    have hbox := Mailbox.create_eq_fresh hcreate
    simp [box, hlen, hv, hbox]

theorem Exchange.Assembled.fresh {σ : Type} {config : Config} {x : Exchange σ}
    (h : x.Assembled config) : x.Fresh config := by
  obtain ⟨hnum, hmargin, hlength, hwinner, hbox⟩ := Coordinator.create_spec h.create_eq
  exact ⟨h.size_runners, hnum, hmargin, hlength, hwinner, hbox, h.control_eq, h.worker_eq⟩

namespace Portfolio

variable {σ : Type} {engines : List σ} {config : Config} {sensors : Sensors} {p : Portfolio σ}

/-- What a launch makes: a coordinator, and on it a worker for every engine. -/
theorem runner_of_launch (h : launch engines config sensors = .ok p) :
    Coordinator.create config.numWorkers config.margin config.periodLength =
      .ok p.shared.coordinator ∧ p.runners.size = config.numWorkers ∧
    ∀ (i : Nat) (r : Runner σ), p.runners[i]? = some r → r.control = .ready ∧
      Worker.create i p.shared.coordinator config = .ok r.worker ∧ engines[i]? = some r.engine := by
  unfold launch at h
  obtain ⟨_, hvalid, h⟩ := exists_of_bind_eq_ok h
  split at h
  · cases h
  · rename_i hlen
    obtain ⟨c, hc, h⟩ := exists_of_bind_eq_ok h
    obtain ⟨runners, hrunners, h⟩ := exists_of_bind_eq_ok h
    obtain rfl := Except.ok.inj h
    obtain ⟨hsize, hall⟩ := getElem_of_mapM_eq_ok hrunners
    refine ⟨hc, by simpa using hsize.trans (by simpa using hlen), fun i r hr => ?_⟩
    obtain ⟨hi, rfl⟩ := List.getElem?_eq_some_iff.1 (by simpa using hr)
    have hf := hall i (by omega) hi
    rw [List.getElem_zipIdx] at hf
    obtain ⟨w, hw, hf⟩ := exists_of_bind_eq_ok hf
    rw [← Except.ok.inj hf]
    refine ⟨rfl, by simpa using eq_ok_of_mapError_eq_ok hw, ?_⟩
    exact List.getElem?_eq_getElem (by rw [← List.length_zipIdx, ← hsize]; exact hi)

/-- The engines of the workers are those of the launch. -/
theorem engine_mem_of_launch (h : launch engines config sensors = .ok p) {i : Nat} {r : Runner σ}
    (hr : p.runners[i]? = some r) : r.engine ∈ engines :=
  List.mem_of_getElem? ((runner_of_launch h).2.2 i r hr).2.2

/-- A launch assembles an exchange. -/
theorem assembled_of_launch (h : launch engines config sensors = .ok p) :
    p.toExchange.Assembled config := by
  obtain ⟨hc, hsize, hrunners⟩ := runner_of_launch h
  exact ⟨hc, hsize, fun i r hr => (hrunners i r hr).1, fun i r hr => (hrunners i r hr).2.1⟩

/-- A launch does not fail if the configuration is valid, there is one engine a worker and the
coordinator can be created. -/
theorem exists_launch (hvalid : config.validate = .ok ())
    (hengines : engines.length = config.numWorkers) {c : Coordinator}
    (hcreate : Coordinator.create config.numWorkers config.margin config.periodLength = .ok c)
    (sensors : Sensors) : ∃ p, launch engines config sensors = .ok p := by
  have hnum := (Coordinator.create_spec hcreate).1
  have hworkers : ∀ a ∈ engines.zipIdx, ∃ r,
      (do
        let worker ← (Worker.create a.2 c config).mapError Failure.fault
        return ({ worker, engine := a.1 } : Runner σ)) = .ok r := by
    intro a ha
    have hlt := List.snd_lt_of_mem_zipIdx ha
    rw [hengines, ← hnum, Nat.add_zero] at hlt
    unfold Worker.create
    rw [if_pos hlt]
    exact ⟨_, rfl⟩
  obtain ⟨runners, hrunners⟩ := exists_mapM_eq_ok hworkers
  unfold launch
  rw [hvalid, if_neg (not_not.2 hengines), hcreate]
  change ∃ p, (List.mapM _ engines.zipIdx >>= _) = Except.ok p
  rw [hrunners]
  exact ⟨_, rfl⟩

/-- The host of a portfolio begins to wait, and nothing has been told yet. -/
theorem host_of_launch (h : launch engines config sensors = .ok p) :
    p.host = hostAfter config.numWorkers 0 ∧ p.shared.channel = .create config.numWorkers := by
  unfold launch at h
  obtain ⟨_, -, h⟩ := exists_of_bind_eq_ok h
  split at h
  · cases h
  · obtain ⟨c, -, h⟩ := exists_of_bind_eq_ok h
    obtain ⟨runners, -, h⟩ := exists_of_bind_eq_ok h
    obtain rfl := Except.ok.inj h
    exact ⟨rfl, rfl⟩

/-- A portfolio is only launched with a valid configuration, -/
theorem validate_of_launch (h : launch engines config sensors = .ok p) :
    config.validate = .ok () := by
  unfold launch at h
  obtain ⟨_, hvalid, -⟩ := exists_of_bind_eq_ok h
  exact eq_ok_of_mapError_eq_ok hvalid

/-- in which no period has the length `0`. -/
theorem one_le_periodLength_of_launch (h : launch engines config sensors = .ok p) :
    1 ≤ config.periodLength := by
  have hvalid := validate_of_launch h
  unfold Config.validate at hvalid
  split at hvalid
  · cases hvalid
  · split at hvalid
    · cases hvalid
    · omega

/-- A portfolio that has been launched is fresh. -/
theorem fresh_of_launch (h : launch engines config sensors = .ok p) :
    p.toExchange.Fresh config := (assembled_of_launch h).fresh

end Portfolio

end ClauseExchange
