import ClauseExchange.Proofs.Engine.SimulatedRun
import ClauseExchange.Proofs.Exchange.Upheld
import ClauseExchange.Proofs.Portfolio.Model

/-!
# Root units

A simulated engine fixes the units that it learns and those that it imports, as they come. Of every
variable the first literal is fixed and stays fixed, so that the assignment, in which a variable is
false only if its negation is fixed, makes all fixed units true.

An `Intake` is what an engine takes in at once.

* `Simulated.mem_units_takeAll` says which units are fixed after any number of intakes.
* `Simulated.honours_model` is about the assignment.
* `Simulated.upholds_isOver` says that engines of one script exchange clauses over their variables
  only.
* `Simulated.units_honoured` puts this together, for an engine on its own and for portfolios.
-/

namespace ClauseExchange

/-- What an engine takes in: a clause that it learns, or clauses that it is to apply. -/
inductive Intake
  | learnt (learnt : Learnt)
  | imported (batch : Batch)

namespace Intake

/-- The clauses that are taken in as units, in order. -/
def units : Intake → List Clause
  | learnt l => if l.clause.isUnit then [l.clause] else []
  | imported batch => batch.units.toList

/-- The literals of these. -/
def literals (i : Intake) : List Literal := i.units.flatMap (·.literals)

/-- All units that are taken in have negations. -/
def IsSafe (i : Intake) : Prop := ∀ u ∈ i.units, u.IsSafeUnit

end Intake

/-- All literals of the clause are over the variables from `1` to `numVars`. -/
def Clause.IsOver (numVars : Nat) (c : Clause) : Prop := ∀ l ∈ c.literals, l.IsOver numVars

/-- An assignment of the variables from `1` to `numVars`, in order, that makes units true. -/
structure FixedUnits.HonouredBy (us : FixedUnits) (numVars : Nat) (m : List Literal) : Prop where
  natAbs_eq : m.map Int.natAbs = List.range' 1 numVars
  mem : ∀ l ∈ us, l.natAbs ≤ numVars → l ∈ m

namespace Simulated

variable {ρ : Type} {e : Simulated ρ} {l : Literal}

/-- The engine once it has taken something in. -/
def take (e : Simulated ρ) : Intake → Simulated ρ
  | .learnt learnt => e.learn learnt
  | .imported batch => (e.apply batch).2

/-- The engine once it has taken in one thing after the other. -/
def takeAll (e : Simulated ρ) (intakes : List Intake) : Simulated ρ := intakes.foldl take e

/-! ## The units -/

theorem units_apply (e : Simulated ρ) (batch : Batch) :
    (e.apply batch).2.units = (e.units.fixAll false batch.units.toList).2 := by
  unfold apply
  split <;> rename_i heq <;> rw [heq]

theorem units_learn (e : Simulated ρ) (learnt : Learnt) :
    (e.learn learnt).units = (e.units.fixAll false (Intake.learnt learnt).units).2 := by
  have hfix : (fixLearnt e.units learnt.clause).2 =
      (e.units.fixAll false (Intake.learnt learnt).units).2 := by
    by_cases hunit : learnt.clause.isUnit = true
    · rw [fixLearnt, Intake.units, if_pos hunit, if_pos hunit]
    · rw [fixLearnt, Intake.units, if_neg hunit, if_neg hunit]
      rfl
  rw [← hfix]
  unfold learn
  split <;> rename_i heq <;> rw [heq]

theorem units_take (e : Simulated ρ) (i : Intake) :
    (e.take i).units = (e.units.fixAll false i.units).2 := by
  cases i with
  | learnt learnt => exact e.units_learn learnt
  | imported batch => exact e.units_apply batch

theorem simulation_take (e : Simulated ρ) (i : Intake) : (e.take i).simulation = e.simulation := by
  cases i with
  | learnt learnt => exact e.simulation_learn learnt
  | imported batch => exact e.simulation_apply batch

theorem simulation_takeAll (e : Simulated ρ) (intakes : List Intake) :
    (e.takeAll intakes).simulation = e.simulation := by
  induction intakes generalizing e with
  | nil => rfl
  | cons i intakes ih => exact (ih (e.take i)).trans (e.simulation_take i)

/-- It makes no difference in what portions units come. -/
theorem units_takeAll {intakes : List Intake} (hsafe : ∀ i ∈ intakes, i.IsSafe) :
    (e.takeAll intakes).units = (e.units.fixAll false (intakes.flatMap Intake.units)).2 := by
  induction intakes generalizing e with
  | nil => rfl
  | cons i intakes ih =>
    obtain ⟨hi, hsafe⟩ := List.forall_mem_cons.1 hsafe
    rw [List.flatMap_cons, FixedUnits.snd_fixAll_append hi, ← units_take]
    exact ih hsafe

/-- Of every variable that is not fixed yet the first literal that is taken in is fixed. -/
theorem mem_units_takeAll {intakes : List Intake} (hsafe : ∀ i ∈ intakes, i.IsSafe) :
    l ∈ (e.takeAll intakes).units ↔ l ∈ e.units ∨ -l ∉ e.units ∧
      (intakes.flatMap Intake.literals).find? (fun k => k.natAbs = l.natAbs) = some l := by
  have hunits : ∀ u ∈ intakes.flatMap Intake.units, u.IsSafeUnit := by
    intro u hu
    obtain ⟨i, hi, hu⟩ := List.mem_flatMap.1 hu
    exact hsafe i hi u hu
  rw [units_takeAll hsafe, FixedUnits.mem_fixAll_iff hunits, List.flatMap_assoc]
  rfl

theorem consistent_take (h : e.units.Consistent) (i : Intake) : (e.take i).units.Consistent := by
  rw [units_take]
  exact h.fixAll false i.units

theorem consistent_takeAll (h : e.units.Consistent) (intakes : List Intake) :
    (e.takeAll intakes).units.Consistent := by
  induction intakes generalizing e with
  | nil => exact h
  | cons i intakes ih => exact ih (consistent_take h i)

/-- Units that can be negated do not keep clauses from being applied. -/
theorem exists_apply_eq_ok {batch : Batch} (hsafe : ∀ u ∈ batch.units, u.IsSafeUnit) :
    ∃ outcome, (e.apply batch).1 = .ok outcome := by
  obtain ⟨met, hmet⟩ := FixedUnits.exists_fixAll_eq_ok e.units false fun u hu =>
    hsafe u (Array.mem_toList_iff.1 hu)
  unfold apply
  split
  · rename_i f units heq
    rw [heq] at hmet
    cases hmet
  · exact ⟨_, rfl⟩

/-! ## The assignment -/

theorem natAbs_value (us : FixedUnits) (v : Nat) : (value us v).natAbs = v := by
  unfold value
  split
  · exact Int.natAbs_neg v
  · rfl

/-- A variable has the value that has been fixed for it. -/
theorem value_eq_of_mem {us : FixedUnits} (h : us.Consistent) (hl : l ∈ us) :
    value us l.natAbs = l := by
  unfold value
  rcases Int.natAbs_eq l with heq | heq
  · have hnot : -(l.natAbs : Literal) ∉ us := by
      rw [← heq]
      exact h l hl
    rw [if_neg (mt List.contains_iff_mem.1 hnot)]
    exact heq.symm
  · have hmem : -(l.natAbs : Literal) ∈ us := by rwa [← heq]
    rw [if_pos (List.contains_iff_mem.2 hmem)]
    exact heq.symm

/-- An engine made to find the formula satisfiable assigns all variables, as its units have it. -/
theorem honours_model (hvars : e.simulation.numVars ≤ SignedWord.max.toNat)
    (hunits : e.units.Consistent) (hverdict : e.simulation.verdict = .satisfiable) :
    ∃ m, e.model = some m ∧ e.units.HonouredBy e.simulation.numVars m := by
  refine ⟨(List.range' 1 e.simulation.numVars).map (value e.units), ?_, ?_, fun l hl hle => ?_⟩
  · rw [model, if_pos hverdict, if_pos hvars]
  · rw [List.map_map]
    exact List.map_id'' (natAbs_value e.units) _
  · have hne : l ≠ 0 := fun hzero => hunits l hl (by rwa [hzero, Int.neg_zero, ← hzero])
    have hpos : 1 ≤ l.natAbs := Int.natAbs_pos.2 hne
    refine List.mem_map.2 ⟨l.natAbs, List.mem_range'_1.2 ⟨hpos, by omega⟩, ?_⟩
    exact value_eq_of_mem hunits hl

/-- No other engine does. -/
theorem model_eq_none (hverdict : e.simulation.verdict ≠ .satisfiable) : e.model = none :=
  if_neg hverdict

/-! ## Between engines of one script -/

/-- An engine of a script, whose units and learnt clauses are over the variables of the script. -/
structure Sound (s : Simulation) (e : Simulated ρ) : Prop where
  simulation_eq : e.simulation = s
  consistent : e.units.Consistent
  isOver : ∀ l ∈ e.units, l.IsOver s.numVars
  learnt_isOver : ∀ learnt, e.control.learnt? = some learnt → learnt.clause.IsOver s.numVars

namespace Sound

variable {s : Simulation} {e' : Simulated ρ}

/-- An engine that has nothing new stays sound. -/
theorem trans (h : e.Sound s) (hsimulation : e'.simulation = e.simulation)
    (hunits : e'.units = e.units) (hlearnt : e'.control.learnt? = none) : e'.Sound s where
  simulation_eq := hsimulation.trans h.simulation_eq
  consistent := by
    rw [hunits]
    exact h.consistent
  isOver := by
    rw [hunits]
    exact h.isOver
  learnt_isOver learnt hsome := by
    rw [hlearnt] at hsome
    cases hsome

theorem isOver_fixAll (h : e.Sound s) {cs : List Clause} (hcs : ∀ c ∈ cs, c.IsOver s.numVars) :
    ∀ l ∈ (e.units.fixAll false cs).2, l.IsOver s.numVars := by
  intro l hl
  rcases FixedUnits.mem_of_mem_fixAll hl with hl | ⟨c, hc, hl⟩
  · exact h.isOver l hl
  · exact hcs c hc l hl

theorem start [Sampler ρ] (s : Simulation) (source : ρ) : (start s source).Sound s where
  simulation_eq := rfl
  consistent l hl := by cases hl
  isOver l hl := by cases hl
  learnt_isOver learnt hlearnt := by cases hlearnt

theorem search [Sampler ρ] (h : e.Sound s) (hone : 1 ≤ s.numVars)
    (hvars : s.numVars ≤ SignedWord.max.toNat) : e.search.Sound s := by
  have hunits : e.search.units = e.units := by
    unfold Simulated.search
    split <;> rfl
  obtain rfl := h.simulation_eq
  refine ⟨e.simulation_search, ?_, ?_, fun learnt hlearnt l hl => ?_⟩
  · rw [hunits]
    exact h.consistent
  · rw [hunits]
    exact h.isOver
  · obtain ⟨ls, -, -, hls, hliterals⟩ := (teaches_of_search hone hvars hlearnt).drawn
    rw [hliterals] at hl
    exact hls l (Literal.mem_of_mem_normalize hl)

theorem learn (h : e.Sound s) {learnt : Learnt} (hlearnt : learnt.clause.IsOver s.numVars) :
    (e.learn learnt).Sound s where
  simulation_eq := (e.simulation_learn learnt).trans h.simulation_eq
  consistent := by
    rw [units_learn]
    exact h.consistent.fixAll false _
  isOver := by
    rw [units_learn]
    refine h.isOver_fixAll fun c hc => ?_
    rw [Intake.units] at hc
    split at hc
    · obtain rfl := List.mem_singleton.1 hc
      exact hlearnt
    · cases hc
  learnt_isOver learnt' hsome := by
    rcases e.learn_cases learnt with
      ⟨units, heq⟩ | ⟨units, l, heq, -⟩ | ⟨units, heq⟩ | ⟨units, heq⟩ <;> rw [heq] at hsome
    · cases hsome
    · cases hsome
    · rwa [← Option.some.inj hsome]
    · cases hsome

theorem proceed (h : e.Sound s) : e.proceed.Sound s := by
  refine h.trans e.simulation_proceed ?_ ?_ <;>
    · unfold Simulated.proceed
      split <;> rfl

theorem judge (h : e.Sound s) : e.judge.Sound s := by
  refine h.trans e.simulation_judge ?_ ?_ <;>
    · unfold Simulated.judge
      split <;> rfl

theorem apply (h : e.Sound s) {batch : Batch} (hbatch : batch.All (·.IsOver s.numVars)) :
    (e.apply batch).2.Sound s where
  simulation_eq := (e.simulation_apply batch).trans h.simulation_eq
  consistent := by
    rw [units_apply]
    exact h.consistent.fixAll false _
  isOver := by
    rw [units_apply]
    exact h.isOver_fixAll fun c hc => hbatch.units c (Array.mem_toList_iff.1 hc)
  learnt_isOver := by
    rw [control_apply]
    exact h.learnt_isOver

/-- What a reply shows does not matter to a simulated engine. -/
theorem resume [Sampler ρ] (h : e.Sound s) (hone : 1 ≤ s.numVars)
    (hvars : s.numVars ≤ SignedWord.max.toNat) (reply : Reply) : (e.resume reply).Sound s := by
  unfold Simulated.resume
  split
  case h_1 => exact h.search hone hvars
  case h_2 | h_4 | h_6 | h_7 | h_8 | h_10 => exact h.trans rfl rfl rfl
  case h_3 work learnt hcontrol =>
    exact h.learn (h.learnt_isOver learnt (by rw [hcontrol]; rfl))
  case h_5 =>
    split
    · exact h.trans rfl rfl rfl
    · exact h.proceed
  case h_9 | h_11 => exact h.judge
  case h_12 => exact h

end Sound

/-- Engines of one script exchange clauses over its variables only. -/
theorem upholds_isOver [Sampler ρ] {s : Simulation} (hone : 1 ≤ s.numVars)
    (hvars : s.numVars ≤ SignedWord.max.toNat) :
    (engine (ρ := ρ)).Upholds (·.IsOver s.numVars) (Sound s) where
  offers e d quality he hreq := by
    change e.request = _ at hreq
    cases hcontrol : e.control with
    | exporting learnt =>
      simp only [request, hcontrol] at hreq
      obtain ⟨rfl, -⟩ := Request.exportCandidate.inj hreq
      exact he.learnt_isOver learnt (by rw [hcontrol]; rfl)
    | _ => simp [request, hcontrol] at hreq
  resume e reply he _ := he.resume hone hvars reply
  apply e batch he hbatch := he.apply hbatch
  advised e advice he := by
    obtain ⟨threshold, heq⟩ := e.advised_eq advice
    rw [heq]
    exact ⟨he.simulation_eq, he.consistent, he.isOver, he.learnt_isOver⟩

/-! ## What is true of the units -/

/-- What is true of an engine of script `s` that has taken in units with these literals, in this
order. -/
structure HonoursUnits (s : Simulation) (received : List Literal) (e : Simulated ρ) : Prop where
  /-- The first literal of every variable is fixed, -/
  mem_units_iff : ∀ l, l ∈ e.units ↔ received.find? (fun k => k.natAbs = l.natAbs) = some l
  /-- and so no literal along with its negation. -/
  consistent : ∀ l ∈ e.units, -l ∉ e.units
  /-- The engine keeps its units whatever it takes in. -/
  subset_take : ∀ i : Intake, e.units ⊆ (e.take i).units
  /-- A unit that contradicts them changes nothing if it comes on its own, -/
  take_contradicting : ∀ (i : Intake) (u : Clause) (l : Literal), u.IsSafeUnit → u.literals = [l] →
    -l ∈ e.units → i.units = [u] → (e.take i).units = e.units
  /-- and among others it makes no difference if it contradicts what is fixed by then. -/
  take_contradicting_among : ∀ (i i' : Intake) (earlier later : List Clause) (u : Clause)
    (l : Literal), i.IsSafe → u.literals = [l] → -l ∈ (e.units.fixAll false earlier).2 →
    i.units = earlier ++ u :: later → i'.units = earlier ++ later →
    (e.take i).units = (e.take i').units
  /-- Clauses can be applied. They are in conflict if the script is to find the formula
  unsatisfiable and a unit contradicts what is fixed by then. -/
  apply_eq : ∀ batch : Batch, (∀ u ∈ batch.units, u.IsSafeUnit) →
    ∃ outcome, (e.apply batch).1 = .ok outcome ∧
      (outcome = .conflict ↔ s.verdict = .unsatisfiable ∧ e.units.Refutes batch.units.toList)
  /-- The assignment makes all units true. -/
  model_satisfiable : s.verdict = .satisfiable →
    ∃ m, e.model = some m ∧ e.units.HonouredBy s.numVars m
  model_other : s.verdict ≠ .satisfiable → e.model = none

/-- What is true of a portfolio of engines of script `s`. -/
structure SharesUnits [Sampler ρ] (s : Simulation) (q : Portfolio (Simulated ρ)) : Prop where
  /-- The clauses that its workers produce are over the variables of the script, -/
  produced : ∀ (v period : Nat) (set : ClauseSet), q.shared.coordinator.set? v period = some set →
    ∀ d ∈ set.appended.toList, d.IsOver s.numVars
  /-- those that wait for an engine -/
  pending : ∀ (i : Nat) (r : Runner (Simulated ρ)), q.runners[i]? = some r →
    r.worker.pending.All (·.IsOver s.numVars)
  /-- and the units that it has fixed are. -/
  isOver : ∀ (i : Nat) (r : Runner (Simulated ρ)), q.runners[i]? = some r →
    ∀ l ∈ r.engine.units, l.IsOver s.numVars
  consistent : ∀ (i : Nat) (r : Runner (Simulated ρ)), q.runners[i]? = some r →
    ∀ l ∈ r.engine.units, -l ∉ r.engine.units
  /-- A conclusive result has the verdict of the script. The assignment that it shows makes all units
  of the winner true. -/
  winner : ∀ (elapsed : Duration) (result : PortfolioResult),
    q.outcome? engine elapsed = some (.ok result) → result.verdict.isConclusive = true →
    result.verdict = s.verdict ∧ ∃ V r, result.winner? = some V ∧
      q.runners[V.worker]? = some r ∧
      (s.verdict = .satisfiable → ∃ m, result.model? = some m ∧
        m.map Int.natAbs = List.range' 1 s.numVars ∧ ∀ l ∈ r.engine.units, l ∈ m) ∧
      (s.verdict ≠ .satisfiable → result.model? = none)

variable [Sampler ρ] {s : Simulation} {source : ρ}

theorem honoursUnits_takeAll (hvars : s.numVars ≤ SignedWord.max.toNat) (source : ρ)
    {intakes : List Intake} (hsafe : ∀ i ∈ intakes, i.IsSafe) :
    HonoursUnits s (intakes.flatMap Intake.literals) ((start s source).takeAll intakes) := by
  have hsimulation : ((start s source).takeAll intakes).simulation = s :=
    simulation_takeAll _ intakes
  have hunits : ((start s source).takeAll intakes).units.Consistent :=
    consistent_takeAll (Sound.start s source).consistent intakes
  have hmem : ∀ l, l ∈ ((start s source).takeAll intakes).units ↔
      (intakes.flatMap Intake.literals).find? (fun k => k.natAbs = l.natAbs) = some l := by
    intro l
    have hnone : ∀ k, k ∉ (start s source).units := fun k hk => by cases hk
    rw [mem_units_takeAll hsafe]
    simp [hnone]
  generalize (start s source).takeAll intakes = e at hsimulation hunits hmem
  subst hsimulation
  refine ⟨hmem, hunits, fun i => ?_, fun i u l hu hl hneg hi => ?_,
    fun i i' earlier later u l hi hl hneg heq heq' => ?_, fun batch hbatch => ?_,
    honours_model hvars hunits, model_eq_none⟩
  · rw [units_take]
    exact e.units.subset_fixAll false i.units
  · rw [units_take, hi, FixedUnits.fixAll_cons_of_mem hl hu hneg]
    rfl
  · rw [units_take, units_take, heq, heq']
    rw [Intake.IsSafe, heq] at hi
    exact FixedUnits.snd_fixAll_of_mem (fun d hd => hi d (List.mem_append_left _ hd))
      (hi u (List.mem_append_right _ List.mem_cons_self)) hl hneg
  · obtain ⟨outcome, hok⟩ := exists_apply_eq_ok hbatch
    exact ⟨outcome, hok, (apply_cases hok).2⟩

theorem sharesUnits_after (hone : 1 ≤ s.numVars) (hvars : s.numVars ≤ SignedWord.max.toNat)
    {engines : List (Simulated ρ)} {config : Config} {sensors : Sensors}
    {p : Portfolio (Simulated ρ)} (hlaunch : Portfolio.launch engines config sensors = .ok p)
    (hengines : ∀ e ∈ engines, ∃ source, e = start s source) (moves : List Move) :
    SharesUnits s (p.after engine moves) := by
  have hfresh := Portfolio.fresh_of_launch hlaunch
  have hperiods := Portfolio.one_le_periodLength_of_launch hlaunch
  have hstart (i : Nat) (r : Runner (Simulated ρ)) (hr : p.toExchange.runners[i]? = some r) :
      ∃ source, r.engine = start s source :=
    hengines r.engine (Portfolio.engine_mem_of_launch hlaunch hr)
  have hsound (i : Nat) (r : Runner (Simulated ρ)) (hr : p.toExchange.runners[i]? = some r) :
      r.engine.Sound s := by
    obtain ⟨source, heq⟩ := hstart i r hr
    rw [heq]
    exact .start s source
  obtain ⟨hrunner, hproduced⟩ :=
    hfresh.upholds_follow (upholds_isOver hone hvars) hsound (Move.turns moves)
  have hrunners := Portfolio.runners_after hfresh.standing engine moves
  have hcoordinator := Portfolio.coordinator_after hfresh.standing engine moves
  rw [← hcoordinator] at hproduced
  rw [← hrunners] at hrunner
  refine ⟨fun v period set hset => hproduced.of_set? hset, fun i r hr => (hrunner i r hr).pending,
    fun i r hr => (hrunner i r hr).engine.isOver,
    fun i r hr => (hrunner i r hr).engine.consistent, fun elapsed result hresult hconclusive => ?_⟩
  obtain ⟨hdone, houtcome⟩ := Portfolio.completed_of_outcome? hlaunch hresult
  obtain ⟨V, r, statistics, hV, hr, hfinished, hsame, -, hmodel⟩ :=
    hfresh.shows_winner hperiods hdone houtcome hconclusive
  have hshown : r.engine.model = result.model? := Except.ok.inj hmodel
  have hverdict : result.verdict = s.verdict := by
    rw [← hsame] at hconclusive ⊢
    exact (verdict_of_follow hfresh hperiods hstart _ hr (by rw [hfinished]; rfl)).resolve_left
      (Verdict.isConclusive_iff.1 hconclusive)
  rw [← hrunners] at hr
  have hwinner := (hrunner V.worker r hr).engine
  refine ⟨hverdict, V, r, hV, hr, fun hsat => ?_, fun hother => ?_⟩
  · obtain rfl := hwinner.simulation_eq
    obtain ⟨m, hm, hnat, hunits⟩ := honours_model hvars hwinner.consistent hsat
    exact ⟨m, hshown.symm.trans hm, hnat, fun l hl => hunits l hl (hwinner.isOver l hl).2⟩
  · rw [← hwinner.simulation_eq] at hother
    exact hshown.symm.trans (model_eq_none hother)

/-- **Root units stay consistent and the assignment honours them.** This holds of an engine that
takes in any units in any order, and of every portfolio of engines of one script, however its
workers and its host take turns. -/
theorem units_honoured (hone : 1 ≤ s.numVars) (hvars : s.numVars ≤ SignedWord.max.toNat) :
    (∀ (source : ρ) (intakes : List Intake), (∀ i ∈ intakes, i.IsSafe) →
      HonoursUnits s (intakes.flatMap Intake.literals) ((start s source).takeAll intakes)) ∧
    ∀ (engines : List (Simulated ρ)) (config : Config) (sensors : Sensors)
      (p : Portfolio (Simulated ρ)) (moves : List Move),
      Portfolio.launch engines config sensors = .ok p →
      (∀ e ∈ engines, ∃ source, e = start s source) → SharesUnits s (p.after engine moves) :=
  ⟨fun source _ hsafe => honoursUnits_takeAll hvars source hsafe,
    fun _ _ _ _ moves hlaunch hengines => sharesUnits_after hone hvars hlaunch hengines moves⟩

/-- A script of two variables, in which every conflict teaches a unit. -/
def guessing : Simulation :=
  { numVars := 2, maxClauseLength := 1, learnProbability := 1.0, minStepWork := 50,
    maxStepWork := 50, restartInterval := 1, concludeAfter := 2, concludeJitter := 0,
    verdict := .satisfiable }

/-- An engine with this script takes in `-2` and then `2`, `1` and `-1`. In the portfolio the two
workers have come to opposite units, and the result shows the assignment of the first. -/
theorem units_honoured_guessing : ∃ (source : ChaCha.Stream) (intakes : List Intake),
    (∀ i ∈ intakes, i.IsSafe) ∧ intakes.flatMap Intake.literals = [-2, 2, 1, -1] ∧
    HonoursUnits guessing [-2, 2, 1, -1] ((start guessing source).takeAll intakes) ∧
    ((start guessing source).takeAll intakes).model = some [1, -2] ∧
    ∃ (engines : List (Simulated ChaCha.Stream)) (p : Portfolio (Simulated ChaCha.Stream))
      (moves : List Move) (result : PortfolioResult),
      (∀ e ∈ engines, ∃ source, e = start guessing source) ∧
      Portfolio.launch engines { numWorkers := 2, margin := 0, periodLength := 50 } {} = .ok p ∧
      SharesUnits guessing (p.after engine moves) ∧
      (p.after engine moves).outcome? engine {} = some (.ok result) ∧
      result.model? = some [-1, 2] ∧
      (p.after engine moves).runners.toList.map (·.engine.units) = [[-1, 2], [1, -2]] := by
  let source := ChaCha.Stream.ofSeed 1
  let engines := [start guessing source, start guessing (ChaCha.Stream.ofSeed 2)]
  let moves := (List.range 90).map (fun i => Move.worker (i % 2)) ++ [.lookUp]
  let intakes : List Intake := [.learnt ⟨⟨[-2], by decide⟩, 1⟩,
    .imported { units := #[⟨[2], by decide⟩, ⟨[1], by decide⟩, ⟨[-1], by decide⟩] }]
  obtain ⟨halone, hshared⟩ := units_honoured (ρ := ChaCha.Stream) (s := guessing) (by decide)
    (by decide)
  have hsafe : ∀ i ∈ intakes, i.IsSafe := by
    simp [intakes, Intake.IsSafe, Intake.units, Clause.isUnit, Clause.length, Clause.IsSafeUnit,
      SignedWord.min, SignedWord.max]
  obtain ⟨p, hp, hcheck⟩ := exists_eq_ok_of_check
    (x := Portfolio.launch engines { numWorkers := 2, margin := 0, periodLength := 50 } {})
    (q := fun p => (p.after engine moves).hasResult engine {} (fun result =>
        decide (result.model? = some [-1, 2])) &&
      decide ((p.after engine moves).runners.toList.map (·.engine.units) = [[-1, 2], [1, -2]]))
    (by decide +kernel)
  obtain ⟨hresult, hunits⟩ := Bool.and_eq_true_iff.1 hcheck
  obtain ⟨result, houtcome, hmodel⟩ := Portfolio.exists_of_hasResult hresult
  have hengines : ∀ e ∈ engines, ∃ source, e = start guessing source :=
    List.forall_mem_cons.2 ⟨⟨_, rfl⟩, List.forall_mem_singleton.2 ⟨_, rfl⟩⟩
  exact ⟨source, intakes, hsafe, rfl, halone source intakes hsafe, by decide +kernel, engines, p,
    moves, result, hengines, hp, hshared engines _ {} p moves hp hengines, houtcome,
    of_decide_eq_true hmodel, of_decide_eq_true hunits⟩

end Simulated

end ClauseExchange
