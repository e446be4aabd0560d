import ClauseExchange.Engine.Scripted
import ClauseExchange.Proofs.Exchange.Clock
import Mathlib.Data.List.Chain

/-!
# Forced applications

An engine asks its worker, whenever it likes, whether imported clauses have to be applied now. The
worker says yes if there are urgent ones and `forcedPeriods` periods have passed since it last said
so. `Runner.inquiries` reads off a step what was asked and answered, and along a schedule the record
of this is the log of a worker's inquiries.

* `Runner.Cooled` says how the log and the worker's account of it belong together.
  `Runner.Cooled.step` keeps it from step to step.
* `Runner.Cooled.answer_isOk` says why the worker's arithmetic does not overflow: a log in which it
  once said yes shows that `forcedPeriods` is no larger than a period.
* `Exchange.Assembled.forced_applications` puts it together for every schedule.
-/

namespace ClauseExchange

/-- A question whether imported clauses have to be applied now, and its answer. -/
structure Inquiry where
  /-- The period in which it was asked. -/
  period : Nat
  /-- The clauses that were pending. -/
  pending : Batch
  /-- The answer. -/
  answer : Except Fault Bool

namespace Inquiry

/-- The period of an inquiry that was answered with yes. -/
def forced? (a : Inquiry) : Option Nat :=
  match a.answer with
  | .ok true => some a.period
  | _ => none

/-- The periods in which the answer was yes. -/
def forcedIn (log : List Inquiry) : List Nat := log.filterMap forced?

/-- The last period in which the answer was yes, `0` if there is none. -/
def lastForcedIn (log : List Inquiry) : Nat := (forcedIn log).getLast?.getD 0

/-- A unit is pending, or as many other clauses a worker as force an application. -/
def IsUrgent (config : Config) (a : Inquiry) : Prop :=
  a.pending.units ≠ #[] ∨
    0 < config.forcedClauses ∧ config.forcedClauses ≤ a.pending.clauses.size / config.numWorkers

/-- The answer to an inquiry after the inquiries of a log: an overflow if the end of the waiting time
is no word, else whether the time is over and there are urgent clauses. -/
structure Follows (config : Config) (log : List Inquiry) (a : Inquiry) : Prop where
  error_iff : ∀ f, a.answer = .error f ↔
    f = .overflow ∧ Word.bound ≤ lastForcedIn log + config.forcedPeriods
  true_iff : a.answer = .ok true ↔
    lastForcedIn log + config.forcedPeriods ≤ a.period ∧ a.IsUrgent config

theorem forcedIn_append (log log' : List Inquiry) :
    forcedIn (log ++ log') = forcedIn log ++ forcedIn log' := List.filterMap_append

theorem forcedIn_singleton_of_true {a : Inquiry} (h : a.answer = .ok true) :
    forcedIn [a] = [a.period] := by simp [forcedIn, forced?, h]

theorem forcedIn_singleton_of_ne {a : Inquiry} (h : a.answer ≠ .ok true) : forcedIn [a] = [] := by
  unfold forcedIn
  rw [List.filterMap_cons_none, List.filterMap_nil]
  unfold forced?
  split
  · exact absurd ‹_› h
  · rfl

/-- Every yes was given in the period of an inquiry. -/
theorem exists_of_mem_forcedIn {log : List Inquiry} {q : Nat} (h : q ∈ forcedIn log) :
    ∃ a ∈ log, a.period = q := by
  obtain ⟨a, ha, hq⟩ := List.mem_filterMap.1 h
  refine ⟨a, ha, ?_⟩
  unfold forced? at hq
  split at hq
  · exact Option.some.inj hq
  · cases hq

theorem lastForcedIn_append_of_nil {log log' : List Inquiry} (h : forcedIn log' = []) :
    lastForcedIn (log ++ log') = lastForcedIn log := by
  rw [lastForcedIn, forcedIn_append, h, List.append_nil, lastForcedIn]

theorem lastForcedIn_concat_of_true {log : List Inquiry} {a : Inquiry} (h : a.answer = .ok true) :
    lastForcedIn (log ++ [a]) = a.period := by
  rw [lastForcedIn, forcedIn_append, forcedIn_singleton_of_true h, List.getLast?_concat]
  rfl

/-- The last yes of a log is `0` or one of its periods. -/
theorem lastForcedIn_cases (log : List Inquiry) :
    forcedIn log = [] ∧ lastForcedIn log = 0 ∨ lastForcedIn log ∈ forcedIn log := by
  rcases List.eq_nil_or_concat (forcedIn log) with hnil | ⟨periods, q, hconcat⟩
  · exact .inl ⟨hnil, by rw [lastForcedIn, hnil]; rfl⟩
  · refine .inr ?_
    rw [List.concat_eq_append] at hconcat
    rw [lastForcedIn, hconcat, List.getLast?_concat]
    exact List.mem_append_right _ List.mem_cons_self

end Inquiry

open Inquiry (forcedIn lastForcedIn)

/-! ## One question -/

namespace Worker

/-- The question that the engine of a worker asks, with the answer that it gets. -/
def inquiry (w : Worker) : Inquiry := ⟨w.period, w.pending, w.shouldApply.1⟩

theorem hasUrgentImports_iff {w : Worker} {config : Config} (hconfig : w.config = config)
    (hnum : w.numWorkers = config.numWorkers) :
    w.hasUrgentImports = true ↔ w.inquiry.IsUrgent config := by
  simp [hasUrgentImports, Inquiry.IsUrgent, inquiry, hconfig, hnum]

/-- What comes of the question whether imports have to be applied now. -/
theorem shouldApply_cases (w : Worker) :
    (Word.bound ≤ w.lastForced + w.config.forcedPeriods ∧ w.shouldApply = (.error .overflow, w)) ∨
    (w.lastForced + w.config.forcedPeriods < Word.bound ∧
      ((w.lastForced + w.config.forcedPeriods ≤ w.period ∧ w.hasUrgentImports = true ∧
        w.shouldApply = (.ok true, { w with
          lastForced := w.period
          stats := { w.stats with forcedApplications := w.stats.forcedApplications + 1 } })) ∨
      (¬ (w.lastForced + w.config.forcedPeriods ≤ w.period ∧ w.hasUrgentImports = true) ∧
        w.shouldApply = (.ok false, w)))) := by
  unfold shouldApply
  cases hdue : Word.add w.lastForced w.config.forcedPeriods with
  | error f =>
    obtain ⟨rfl, hbound⟩ := Word.add_eq_error_iff.1 hdue
    exact .inl ⟨hbound, rfl⟩
  | ok due =>
    obtain ⟨rfl, hbound⟩ := Word.add_eq_ok_iff.1 hdue
    refine .inr ⟨hbound, ?_⟩
    dsimp only
    by_cases h : w.lastForced + w.config.forcedPeriods ≤ w.period ∧ w.hasUrgentImports = true
    · rw [if_pos (by simpa using h)]
      exact .inl ⟨h.1, h.2, rfl⟩
    · rw [if_neg (by simpa using h)]
      exact .inr ⟨h, rfl⟩

theorem period_shouldApply (w : Worker) : w.shouldApply.2.period = w.period :=
  w.still_shouldApply.period_eq

/-- A worker that says yes takes note of it, -/
theorem shouldApply_of_true {w : Worker} (h : w.inquiry.answer = .ok true) :
    w.shouldApply.2 = { w with
      lastForced := w.period
      stats := { w.stats with forcedApplications := w.stats.forcedApplications + 1 } } := by
  have hanswer : w.shouldApply.1 = .ok true := h
  rcases w.shouldApply_cases with ⟨-, heq⟩ | ⟨-, ⟨-, -, heq⟩ | ⟨-, heq⟩⟩
  · rw [heq] at hanswer
    cases hanswer
  · rw [heq]
  · rw [heq] at hanswer
    cases hanswer

/-- and one that does not stays as it is. -/
theorem shouldApply_of_ne {w : Worker} (h : w.inquiry.answer ≠ .ok true) : w.shouldApply.2 = w := by
  rcases w.shouldApply_cases with ⟨-, heq⟩ | ⟨-, ⟨-, -, heq⟩ | ⟨-, heq⟩⟩
  · rw [heq]
  · exact absurd (congrArg Prod.fst heq) h
  · rw [heq]

end Worker

namespace Runner

variable {σ : Type}

/-- What the engine asks in the next step of a runner. -/
def inquiries (E : Engine σ) (r : Runner σ) : List Inquiry :=
  match r.control with
  | .searching =>
    match E.request r.engine with
    | .shouldApply => [r.worker.inquiry]
    | _ => []
  | _ => []

section Inquiries

variable {E : Engine σ} {r : Runner σ}

theorem inquiries_of_ask (hr : r.control = .searching) (hreq : E.request r.engine = .shouldApply) :
    r.inquiries E = [r.worker.inquiry] := by simp [inquiries, hr, hreq]

theorem inquiries_eq_nil (h : r.control = .searching → E.request r.engine ≠ .shouldApply) :
    r.inquiries E = [] := by
  unfold inquiries
  split
  · rename_i hr
    split
    · exact absurd ‹_› (h hr)
    · rfl
  · rfl

theorem worker_of_ask (s : Shared) (hr : r.control = .searching)
    (hreq : E.request r.engine = .shouldApply) :
    (r.step E s).1.worker = r.worker.shouldApply.2 := by
  rw [step_searching E s hr, serve, hreq]
  dsimp only
  split <;> rename_i heq <;> rw [heq] <;> rfl

/-- The engine is told the answer, and nothing that is shared changes. -/
theorem step_of_ask (s : Shared) (hr : r.control = .searching)
    (hreq : E.request r.engine = .shouldApply) {yes : Bool}
    (hanswer : r.worker.inquiry.answer = .ok yes) :
    r.step E s = ({ r with worker := r.worker.shouldApply.2 }.reply E (.answer yes), s) := by
  have hpair : r.worker.shouldApply = (.ok yes, r.worker.shouldApply.2) := Prod.ext hanswer rfl
  rw [step_searching E s hr, serve, hreq]
  dsimp only
  rw [hpair]

end Inquiries

/-! ## The log of a worker -/

/-- A worker and the log of its inquiries: it knows the last yes and the number of them, these are
far enough apart, and every answer followed from the log before it. -/
structure Cooled (config : Config) (r : Runner σ) (log : List Inquiry) : Prop where
  last_eq : r.worker.lastForced = lastForcedIn log
  count_eq : r.worker.stats.forcedApplications = (forcedIn log).length
  period_le : ∀ a ∈ log, a.period ≤ r.worker.period
  spaced : (0 :: forcedIn log).IsChain fun q q' => q + config.forcedPeriods ≤ q'
  follows : ∀ before a after, log = before ++ a :: after → a.Follows config before

namespace Cooled

variable {config : Config} {E : Engine σ} {r r' : Runner σ} {s : Shared} {log : List Inquiry}

/-- What is between two neighbours of a chain is also between its last element and a next one. -/
theorem spaced_concat (h : r.Cooled config log) {q : Nat}
    (hq : lastForcedIn log + config.forcedPeriods ≤ q) :
    (0 :: (forcedIn log ++ [q])).IsChain fun q q' => q + config.forcedPeriods ≤ q' := by
  rw [← List.cons_append]
  refine List.isChain_append.2 ⟨h.spaced, .singleton q, fun last hlast q' hq' => ?_⟩
  have hlast' : last = lastForcedIn log := by
    rw [List.getLast?_cons] at hlast
    exact (Option.some.inj hlast).symm
  rw [hlast', ← Option.some.inj hq']
  exact hq

/-- Every yes was given after the waiting time at least. -/
theorem le_of_mem_forcedIn (h : r.Cooled config log) {q : Nat} (hq : q ∈ forcedIn log) :
    config.forcedPeriods ≤ q := by
  have htrans : IsTrans Nat fun q q' => q + config.forcedPeriods ≤ q' :=
    ⟨fun _ _ _ h h' => by omega⟩
  have hfirst := (List.pairwise_cons.1 (List.isChain_iff_pairwise.1 h.spaced)).1 q hq
  omega

/-- A step without a question leaves the log as it is. -/
theorem of_steady (h : r.Cooled config log) (hsteady : r.worker.Steady r'.worker)
    (hperiod : r.worker.period ≤ r'.worker.period) : r'.Cooled config log where
  last_eq := by rw [hsteady.lastForced_eq, h.last_eq]
  count_eq := by rw [hsteady.forced_eq, h.count_eq]
  period_le a ha := (h.period_le a ha).trans hperiod
  spaced := h.spaced
  follows := h.follows

/-- The worker answers as its log demands. -/
theorem follows_inquiry (h : r.Cooled config log) (hconfig : r.worker.config = config)
    (hnum : r.worker.numWorkers = config.numWorkers) (hword : r.worker.period < Word.bound) :
    r.worker.inquiry.Follows config log := by
  have hurgent := Worker.hasUrgentImports_iff hconfig hnum
  have hlast := h.last_eq
  have hcases := r.worker.shouldApply_cases
  rw [hlast, hconfig, hurgent] at hcases
  have hperiod : r.worker.inquiry.period = r.worker.period := rfl
  rcases hcases with ⟨hbound, hanswer⟩ | ⟨hbound, ⟨hdue, hurg, hanswer⟩ | ⟨hnot, hanswer⟩⟩ <;>
    have hanswer : r.worker.inquiry.answer = _ := congrArg Prod.fst hanswer
  · refine ⟨fun f => ?_, ?_⟩
    · rw [hanswer, Except.error.injEq]
      exact ⟨fun hf => ⟨hf.symm, hbound⟩, fun hf => hf.1.symm⟩
    · rw [hanswer, hperiod]
      exact ⟨fun hyes => (by cases hyes), fun hyes => (by omega)⟩
  · refine ⟨fun f => ?_, ?_⟩
    · rw [hanswer]
      exact ⟨fun hf => (by cases hf), fun hf => (by omega)⟩
    · rw [hanswer]
      exact ⟨fun _ => ⟨hdue, hurg⟩, fun _ => rfl⟩
  · refine ⟨fun f => ?_, ?_⟩
    · rw [hanswer]
      exact ⟨fun hf => (by cases hf), fun hf => (by omega)⟩
    · rw [hanswer]
      exact ⟨fun hyes => (by cases hyes), fun hyes => absurd hyes hnot⟩

/-- A question adds its answer to the log. -/
theorem of_ask (h : r.Cooled config log) (hconfig : r.worker.config = config)
    (hnum : r.worker.numWorkers = config.numWorkers) (hword : r.worker.period < Word.bound)
    (hw : r'.worker = r.worker.shouldApply.2) : r'.Cooled config (log ++ [r.worker.inquiry]) := by
  have hfollows := h.follows_inquiry hconfig hnum hword
  have hperiod : r'.worker.period = r.worker.period := by rw [hw, Worker.period_shouldApply]
  have hperiods : ∀ a ∈ log ++ [r.worker.inquiry], a.period ≤ r'.worker.period := by
    intro a ha
    rw [hperiod]
    rcases List.mem_append.1 ha with ha | ha
    · exact h.period_le a ha
    · rw [List.mem_singleton.1 ha]
      exact Nat.le_refl _
  have hall : ∀ before a after, log ++ [r.worker.inquiry] = before ++ a :: after →
      a.Follows config before := by
    intro before a after hsplit
    rcases List.eq_nil_or_concat after with rfl | ⟨after, b, rfl⟩
    · obtain ⟨rfl, ha⟩ := List.append_inj' hsplit rfl
      rw [← List.singleton_inj.1 ha]
      exact hfollows
    · rw [List.concat_eq_append, ← List.cons_append, ← List.append_assoc] at hsplit
      exact h.follows before a after (List.append_inj' hsplit rfl).1
  by_cases hyes : r.worker.inquiry.answer = .ok true
  · obtain ⟨hdue, -⟩ := hfollows.true_iff.1 hyes
    have hworker := hw.trans (Worker.shouldApply_of_true hyes)
    have hforced : forcedIn (log ++ [r.worker.inquiry]) = forcedIn log ++ [r.worker.period] := by
      rw [Inquiry.forcedIn_append, Inquiry.forcedIn_singleton_of_true hyes]
      rfl
    refine ⟨?_, ?_, hperiods, ?_, hall⟩
    · rw [hworker, Inquiry.lastForcedIn_concat_of_true hyes]
      rfl
    · rw [hworker, hforced, List.length_append, List.length_singleton, ← h.count_eq]
    · rw [hforced]
      exact h.spaced_concat hdue
  · have hworker := hw.trans (Worker.shouldApply_of_ne hyes)
    have hforced := Inquiry.forcedIn_singleton_of_ne hyes
    refine ⟨?_, ?_, hperiods, ?_, hall⟩
    · rw [hworker, h.last_eq, Inquiry.lastForcedIn_append_of_nil hforced]
    · rw [hworker, h.count_eq, Inquiry.forcedIn_append, hforced, List.append_nil]
    · rw [Inquiry.forcedIn_append, hforced, List.append_nil]
      exact h.spaced

/-- Every step keeps the log and the worker's account of it together. -/
theorem step (h : r.Cooled config log) (hid : r.worker.id < s.coordinator.numWorkers)
    (hconfig : r.worker.config = config) (hnum : r.worker.numWorkers = config.numWorkers)
    (hword : r.worker.period < Word.bound) :
    (r.step E s).1.Cooled config (log ++ r.inquiries E) := by
  by_cases hask : r.control = .searching ∧ E.request r.engine = .shouldApply
  · obtain ⟨hr, hreq⟩ := hask
    rw [inquiries_of_ask hr hreq]
    exact h.of_ask hconfig hnum hword (worker_of_ask s hr hreq)
  · have hquiet : r.control = .searching → E.request r.engine ≠ .shouldApply :=
      fun hr hreq => hask ⟨hr, hreq⟩
    rw [inquiries_eq_nil hquiet, List.append_nil]
    refine h.of_steady (steady_step E r s hquiet) ?_
    rcases (r.step_cases E s hid).length_cases with ⟨hperiod, -⟩ | ⟨_, _, _, _, hperiod, -⟩ <;> omega

/-- As long as periods are less than half of all words, no answer is an overflow: the last yes is at
most a period, and either there is none or the waiting time is at most a period as well. -/
theorem answer_isOk (h : r.Cooled config log) (hperiods : config.forcedPeriods < Word.bound)
    (hperiod : r.worker.period < 2 ^ 63) {a : Inquiry} (ha : a ∈ log) : ∃ b, a.answer = .ok b := by
  obtain ⟨before, after, rfl⟩ := List.append_of_mem ha
  cases hanswer : a.answer with
  | ok b => exact ⟨b, rfl⟩
  | error f =>
    obtain ⟨-, hbound⟩ := ((h.follows before a after rfl).error_iff f).1 hanswer
    rcases Inquiry.lastForcedIn_cases before with ⟨-, hzero⟩ | hmem
    · omega
    · obtain ⟨b, hb, hlast⟩ := Inquiry.exists_of_mem_forcedIn hmem
      have hle := h.period_le b (List.mem_append_left _ hb)
      have hcool : config.forcedPeriods ≤ lastForcedIn before := h.le_of_mem_forcedIn (by
        rw [Inquiry.forcedIn_append]
        exact List.mem_append_left _ hmem)
      rw [Word.bound] at hbound
      omega

end Cooled

end Runner

namespace Exchange

variable {σ : Type} {config : Config} {x : Exchange σ}

/-- The log of a worker's inquiries and its account of them belong together after every schedule. -/
theorem Fresh.cooled_follow (h : x.Fresh config) (E : Engine σ) (t : List Nat) {w : Nat}
    {r : Runner σ} (hr : (x.follow E t).runners[w]? = some r) :
    r.Cooled config (x.record E (fun r _ => r.inquiries E) t w) := by
  have hw := (h.standing.follow E t).lt_numWorkers hr
  obtain ⟨r₀, hr₀⟩ := h.standing.exists_runner hw
  have hworker := h.worker hr₀
  obtain ⟨q, hq, hcooled⟩ := h.standing.record_follow E (fun r _ => r.inquiries E) hr₀
    (P := fun _ q _ log => q.Cooled config log)
    ⟨by rw [hworker]; rfl, by rw [hworker]; rfl, by simp, .singleton 0, by simp⟩
    (fun t q _ log hq hcooled => by
      have hstands := h.standing.follow E t
      have hstanding := hstands.runner w q hq
      exact hcooled.step (by rw [hstanding.id_eq]; exact hstands.lt_mailboxes hw)
        hstanding.config_eq hstanding.numWorkers_eq hstanding.period_lt)
    (fun _ _ _ _ _ _ _ _ _ _ hcooled => hcooled) t
  obtain rfl := Option.some.inj (hr.symm.trans hq)
  exact hcooled

/-- Forced applications, whatever the engines do and in whatever order the workers take their turns.
The periods in which a worker says yes are at least `forcedPeriods` apart, the first one that far
from the beginning, and the statistics count them. It says yes exactly when that many periods have
passed since its last yes and a unit is pending, or enough other clauses a worker. The engine is
told the answer, and saying no changes nothing else. As long as the periods are less than half of
all words, the answer is never an overflow, however large `forcedPeriods` is. -/
theorem Assembled.forced_applications (h : x.Assembled config) (E : Engine σ) (schedule : List Nat)
    {w : Nat} {r : Runner σ} (hr : (x.follow E schedule).runners[w]? = some r) :
    let log := x.record E (fun r _ => r.inquiries E) schedule w
    ((0 :: forcedIn log).IsChain fun q q' => q + config.forcedPeriods ≤ q') ∧
    (∀ times, (r.worker.statistics times).forcedApplications = (forcedIn log).length) ∧
    (∀ before a after, log = before ++ a :: after → (a.answer = .ok true ↔
      lastForcedIn before + config.forcedPeriods ≤ a.period ∧
        (a.pending.units ≠ #[] ∨ 0 < config.forcedClauses ∧
          config.forcedClauses ≤ a.pending.clauses.size / config.numWorkers))) ∧
    (∀ a yes, r.inquiries E = [a] → a.answer = .ok yes → ∃ worker,
      r.step E (x.follow E schedule).shared =
        ({ r with worker }.reply E (.answer yes), (x.follow E schedule).shared) ∧
      (yes = false → worker = r.worker)) ∧
    (config.forcedPeriods < Word.bound → r.worker.period < 2 ^ 63 →
      ∀ a ∈ log, ∃ b, a.answer = .ok b) := by
  have hcooled := h.fresh.cooled_follow E schedule hr
  refine ⟨hcooled.spaced, fun _ => hcooled.count_eq,
    fun before a after hlog => (hcooled.follows before a after hlog).true_iff,
    fun a yes hask hanswer => ?_, fun hperiods hperiod a ha => hcooled.answer_isOk hperiods hperiod ha⟩
  by_cases hasks : r.control = .searching ∧ E.request r.engine = .shouldApply
  · obtain ⟨hcontrol, hreq⟩ := hasks
    rw [Runner.inquiries_of_ask hcontrol hreq] at hask
    obtain rfl := List.singleton_inj.1 hask
    refine ⟨_, Runner.step_of_ask _ hcontrol hreq hanswer, fun hno => ?_⟩
    exact Worker.shouldApply_of_ne (by rw [hanswer, hno]; simp)
  · rw [Runner.inquiries_eq_nil fun hcontrol hreq => hasks ⟨hcontrol, hreq⟩] at hask
    cases hask

/-- Two scripted engines exchange units. One of them asks in every period, and applies what has come
in period `2` and, when two more periods have passed, in period `4`. -/
theorem forced_applications_scripted : ∃ p r,
    Portfolio.launch
      [{ script := {} }, { script := { offers := [{ literals := [7] }], forced := false } }]
      { numWorkers := 2, margin := 0, periodLength := 10, nonDeterministic := true
        forcedPeriods := 2 } {} = .ok p ∧
    let schedule := (List.replicate 90 [0, 1]).flatten
    let log := p.toExchange.record Scripted.engine (fun r _ => r.inquiries Scripted.engine) schedule 0
    (p.toExchange.follow Scripted.engine schedule).runners[0]? = some r ∧ forcedIn log = [2, 4] ∧
      (r.worker.statistics {}).forcedApplications = 2 ∧ ∀ a ∈ log, ∃ b, a.answer = .ok b := by
  obtain ⟨p, hp, hcheck⟩ := exists_eq_ok_of_check
    (x := Portfolio.launch
      ([{ script := {} }, { script := { offers := [{ literals := [7] }], forced := false } }] :
        List Scripted)
      { numWorkers := 2, margin := 0, periodLength := 10, nonDeterministic := true
        forcedPeriods := 2 } {})
    (q := fun p =>
      let schedule := (List.replicate 90 [0, 1]).flatten
      (p.toExchange.follow Scripted.engine schedule).runners[0]?.any
          (fun r : Runner Scripted => r.worker.period == 4) &&
        forcedIn (p.toExchange.record Scripted.engine (fun r _ => r.inquiries Scripted.engine)
          schedule 0) == [2, 4]) (by decide +kernel)
  simp only [Bool.and_eq_true, beq_iff_eq, Option.any_eq_true] at hcheck
  obtain ⟨⟨r, hr, hperiod⟩, hforced⟩ := hcheck
  obtain ⟨-, hcount, -, -, hok⟩ :=
    (Portfolio.assembled_of_launch hp).forced_applications Scripted.engine _ hr
  exact ⟨p, r, hp, hr, hforced, by rw [hcount, hforced]; rfl,
    hok (by decide) (by rw [hperiod]; decide)⟩

end Exchange

end ClauseExchange
