import ClauseExchange.Proofs.Exchange.Clock

/-!
# Candidates for the length of periods

A set that is complete carries its producer's candidate for the length of a later period. A runner
completes a set in one of three places: at a boundary, where the candidate follows from its pace,
when its engine has concluded, and on its way out. None of them ever records the candidate `0`.

* `Pace.update_cases` says what an update of a pace does; the only way in which it can fail is that
  the work since the last renewal no longer fits into a word.
* `Runner.frozen_step_cases` says which candidate a step of a runner can record.
* `Exchange.Fresh.one_le_candidate` puts it together for every schedule.
-/

namespace ClauseExchange

namespace Pace

variable {p : Pace} {length conflicts n : Nat}

theorem one_le_candidate (p : Pace) : 1 ≤ p.candidate := Nat.le_max_right _ _

/-- What an update with an adaptive length does: it fails because a counter overflows, or it counts
the work, or it renews the average, for which it divides by a positive number of conflicts. -/
theorem update_cases (hpos : 0 < p.conflicts) (length conflicts : Nat)
    (hdue : p.conflictsAtRenewal + p.conflicts < Word.bound) :
    Word.bound ≤ p.consumed + length ∧ p.update length conflicts = (.error .overflow, p) ∨
      p.consumed + length < Word.bound ∧
        ∃ p', p.update length conflicts = (.ok p'.candidate, p') ∧
          (conflicts < p.conflictsAtRenewal + p.conflicts ∧
              p' = { p with consumed := p.consumed + length } ∨
            ∃ d, Word.sub conflicts p.conflictsAtRenewal = .ok d ∧ p.conflicts ≤ d ∧
              p' = { p with
                average :=
                  p.smoothing * (wordToFloat (p.consumed + length) / wordToFloat d
                    * wordToFloat p.conflicts) + (1.0 - p.smoothing) * p.average
                consumed := 0
                conflictsAtRenewal := conflicts }) := by
  unfold update
  rw [if_neg hpos.ne']
  rcases Nat.lt_or_ge (p.consumed + length) Word.bound with hfits | hover
  · refine .inr ⟨hfits, ?_⟩
    rw [Word.add_eq_ok_iff.2 ⟨rfl, hfits⟩]
    dsimp only
    rw [Word.add_eq_ok_iff.2 ⟨rfl, hdue⟩]
    dsimp only
    by_cases hrenew : p.conflictsAtRenewal + p.conflicts ≤ conflicts
    · rw [if_pos hrenew]
      exact ⟨_, rfl, .inr ⟨conflicts - p.conflictsAtRenewal,
        Word.sub_eq_ok_iff.2 ⟨rfl, by omega⟩, by omega, rfl⟩⟩
    · rw [if_neg hrenew]
      exact ⟨_, rfl, .inl ⟨by omega, rfl⟩⟩
  · rw [Word.add_eq_error_iff.2 ⟨rfl, hover⟩]
    exact .inl ⟨hover, rfl⟩

/-- The answer of an update is at least one unit of work. -/
theorem one_le_of_update (hlength : 1 ≤ length) (h : (p.update length conflicts).1 = .ok n) :
    1 ≤ n := by
  unfold update at h
  split at h
  · exact Except.ok.inj h ▸ hlength
  · split at h
    · cases h
    · dsimp only at h
      split at h
      · cases h
      · exact Except.ok.inj h ▸ one_le_candidate _

/-- A length is fitted to the lower bound first, and `0` is no upper bound. -/
theorem clamp_eq (config : Config) (length : Nat) :
    clamp config length = max 1 (if config.adaptiveUpper = 0 then max length config.adaptiveLower
      else min (max length config.adaptiveLower) config.adaptiveUpper) := by
  unfold clamp
  dsimp only
  split <;> split <;> split <;> omega

/-- A length within the bounds of a valid configuration. -/
theorem clamp_bounds {config : Config} (h : config.validate = .ok ()) (length : Nat) :
    1 ≤ clamp config length ∧
      (0 < config.adaptiveLower → config.adaptiveLower ≤ clamp config length) ∧
      (0 < config.adaptiveUpper → clamp config length ≤ config.adaptiveUpper) := by
  have hbounds : 0 < config.adaptiveLower → 0 < config.adaptiveUpper →
      config.adaptiveLower ≤ config.adaptiveUpper := by
    unfold Config.validate at h
    split at h
    · cases h
    split at h
    · cases h
    split at h
    · cases h
    split at h
    · cases h
    split at h
    · cases h
    · rename_i hordered
      intro hlower hupper
      simpa [hlower, hupper] using hordered
  unfold clamp
  dsimp only
  split <;> split <;> omega

end Pace

/-! ## Where candidates come from -/

namespace Mailbox

variable {m : Mailbox} {q : Nat} {f : List Clause × Nat}

/-- Appending freezes nothing. -/
theorem frozen?_append (m : Mailbox) (clause : Clause) (q : Nat) :
    (m.append clause).2.frozen? q = m.frozen? q := by
  rw [append_eq]
  cases hopen : m.isClosed with
  | true => rfl
  | false =>
    rw [if_neg Bool.false_ne_true]
    have hnext : m.tail.nextLength? = none := by
      rw [isClosed, ClauseSet.isCompleted] at hopen
      exact Option.not_isSome_iff_eq_none.1 (by simp [hopen])
    unfold frozen? set?
    dsimp only
    split
    · simp [ClauseSet.frozen?, ClauseSet.push, hnext]
    · rfl

/-- Closing freezes at most the tail, with the candidate that is given. -/
theorem frozen?_close_cases {n : Nat} (h : (m.close n).frozen? q = some f) :
    m.frozen? q = some f ∨ f.2 = n := by
  cases hopen : m.isClosed with
  | true =>
    rw [close_of_closed hopen] at h
    exact .inl h
  | false =>
    rw [close_of_open hopen] at h
    by_cases hq : q = m.past.size
    · rw [frozen?, set?, if_pos hq] at h
      exact .inr (congrArg Prod.snd (Option.some.inj h)).symm
    · exact .inl (by simpa [frozen?, set?, hq] using h)

/-- An advance freezes at most the tail as well; the set that it opens is not complete. -/
theorem frozen?_advance_cases {n : Nat} (h : (m.advance n).2.frozen? q = some f) :
    m.frozen? q = some f ∨ f.2 = n := by
  rcases advance_cases m n with ⟨heq, -⟩ | ⟨-, released, heq, -⟩
  · rw [heq] at h
    exact .inl h
  · rw [heq] at h
    rcases Nat.lt_trichotomy q m.past.size with hq | rfl | hq
    · rw [frozen?, set?_advanced_of_lt m n released hq] at h
      exact .inl h
    · rw [frozen?_of_set? (set?_advanced_size m n released)] at h
      exact .inr (congrArg Prod.snd (Option.some.inj h)).symm
    · have hle : q ≤ (m.advanced n released).past.size := by
        rw [← set?_isSome_iff]
        exact Option.isSome_of_isSome_bind (by rw [← frozen?, h]; rfl)
      obtain rfl : q = m.past.size + 1 := by
        simp only [advanced, Array.size_push] at hle
        omega
      rw [frozen?_of_set? (set?_advanced_succ m n released)] at h
      cases h

end Mailbox

variable {σ : Type}

namespace Runner

/-- The candidate with which the next step of a runner completes a set, if it does. -/
def completing? (r : Runner σ) (c : Coordinator) : Option Nat :=
  match r.control with
  | .boundary b =>
    match b.stage with
    | .advancing => (r.worker.pace.update r.worker.periodLength b.counters.conflicts).1.toOption
    | _ => none
  | .closing _ => some r.worker.periodLength
  | .leaving _ => some c.periodLength
  | _ => none

variable {E : Engine σ} {r : Runner σ} {s : Shared} {b : Boundary}

/-- A boundary completes the worker's set with the answer of its pace, or not at all. -/
theorem coordinator_step_advancing (hr : r.control = .boundary b) (hb : b.stage = .advancing) :
    (r.step E s).2.coordinator = s.coordinator ∨
      ∃ n, r.completing? s.coordinator = some n ∧
        (r.step E s).2.coordinator =
          s.coordinator.setBox r.worker.id ((s.coordinator.box r.worker.id).advance n).2 := by
  rw [step_boundary E s hr (by simp [hb])]
  unfold Boundary.step Boundary.stepAdvancing completing?
  rw [hr]
  dsimp only
  rw [hb]
  dsimp only
  rcases hupdate : r.worker.pace.update r.worker.periodLength b.counters.conflicts with
    ⟨f | n, pace⟩
  · exact .inl rfl
  · refine .inr ⟨n, rfl, ?_⟩
    dsimp only
    have hsnd := Coordinator.onMailbox_snd s.coordinator r.worker.id fun m => m.advance n
    rw [← Coordinator.advance] at hsnd
    rw [← hsnd]
    rcases s.coordinator.advance r.worker.id n with ⟨f | k, coordinator⟩ <;> rfl

variable {v q : Nat} {f : List Clause × Nat}

/-- No other step completes a set. -/
theorem Step.frozen?_eq {r' : Runner σ} {c c' : Coordinator} {events : List Event}
    (h : Step r c events r' c') (hid : r.worker.id < c.numWorkers)
    (hw : r.worker.numWorkers = c.numWorkers)
    (hadvancing : ∀ b, r.control = .boundary b → b.stage ≠ .advancing)
    (hclosing : ∀ verdict, r.control ≠ .closing verdict)
    (hleaving : ∀ ending, r.control ≠ .leaving ending) (v q : Nat) :
    (c'.box v).frozen? q = (c.box v).frozen? q := by
  have hack (offset p : Nat) :
      ((c.acknowledge (r.worker.neighbour offset) r.worker.id p).2.box v).frozen? q =
        (c.box v).frozen? q := by
    have hu : r.worker.neighbour offset < c.numWorkers :=
      hw ▸ r.worker.neighbour_lt (by omega) offset
    rw [Coordinator.acknowledge, Coordinator.onMailbox_snd, Coordinator.box_setBox hu]
    split
    · rename_i hv
      rw [hv]
      exact Mailbox.frozen?_congr (Mailbox.contents_acknowledge _ _ _) q
    · rfl
  cases h with
  | start _ hc => rw [Coordinator.box_congr hc.mailboxes_eq]
  | signOff _ hc => rw [Coordinator.box_congr hc.mailboxes_eq]
  | publish =>
    rw [Coordinator.box_setBox hid]
    split
    · rename_i hv
      rw [hv, Mailbox.frozen?_append]
    · rfl
  | acknowledge => exact hack _ _
  | fail _ hr _ _ _ _ hcases =>
    rcases hcases with rfl | ⟨n, f, hb, -, rfl⟩ | ⟨offset, t, p, f, -, -, rfl⟩
    · rfl
    · exact absurd hb (hadvancing _ hr)
    · exact hack offset p
  | advance hr hb => exact absurd hb (hadvancing _ hr)
  | close hr => exact absurd hr (hclosing _)
  | leave hr => exact absurd hr (hleaving _)
  | _ => rfl

/-- A set that a step leaves complete was so before, or carries the candidate of the step. -/
theorem frozen_step_cases (hid : r.worker.id < s.coordinator.numWorkers)
    (hw : r.worker.numWorkers = s.coordinator.numWorkers)
    (h : ((r.step E s).2.coordinator.box v).frozen? q = some f) :
    (s.coordinator.box v).frozen? q = some f ∨ r.completing? s.coordinator = some f.2 := by
  have hown {m : Mailbox} {n : Nat} (hn : r.completing? s.coordinator = some n)
      (hm : m.frozen? q = some f →
        (s.coordinator.box r.worker.id).frozen? q = some f ∨ f.2 = n)
      (h : ((s.coordinator.setBox r.worker.id m).box v).frozen? q = some f) :
      (s.coordinator.box v).frozen? q = some f ∨ r.completing? s.coordinator = some f.2 := by
    rw [Coordinator.box_setBox hid] at h
    split at h
    · rename_i hv
      rw [hv, hn]
      exact (hm h).imp_right fun hf => congrArg some hf.symm
    · exact .inl h
  by_cases hadvancing : ∃ b, r.control = .boundary b ∧ b.stage = .advancing
  · obtain ⟨b, hr, hb⟩ := hadvancing
    rcases coordinator_step_advancing (E := E) (s := s) hr hb with heq | ⟨n, hn, heq⟩
    · rw [heq] at h
      exact .inl h
    · rw [heq] at h
      exact hown hn Mailbox.frozen?_advance_cases h
  by_cases hclosing : ∃ verdict, r.control = .closing verdict
  · obtain ⟨verdict, hr⟩ := hclosing
    rw [step_closing E hr hid] at h
    exact hown (by rw [completing?, hr]) Mailbox.frozen?_close_cases h
  by_cases hleaving : ∃ ending, r.control = .leaving ending
  · obtain ⟨ending, hr⟩ := hleaving
    rw [step_leaving E hr hid] at h
    exact hown (by rw [completing?, hr]) Mailbox.frozen?_close_cases h
  push Not at hadvancing hclosing hleaving
  rw [(r.step_cases E s hid).frozen?_eq hid hw hadvancing hclosing hleaving] at h
  exact .inl h

/-- The conflicts that a worker's periods aim at never change. -/
theorem pace_conflicts_step (E : Engine σ) (r : Runner σ) (s : Shared) :
    (r.step E s).1.worker.pace.conflicts = r.worker.pace.conflicts := by
  cases changes_step E r s with
  | keep _ hkept => exact hkept.conflicts_eq
  | ask _ _ hw =>
    rw [hw]
    unfold Worker.shouldApply
    split
    · rfl
    · split <;> rfl
  | work units _ _ hw => rw [hw]; rfl
  | enter _ _ hw => rw [Worker.enter_eq_ok hw]

/-- No step completes a set with the candidate `0`. -/
theorem one_le_of_completing? {c : Coordinator} {n : Nat} (hlength : 1 ≤ r.worker.periodLength)
    (hinitial : 1 ≤ c.periodLength) (h : r.completing? c = some n) : 1 ≤ n := by
  unfold completing? at h
  split at h
  · split at h
    · rename_i b _ _ _
      cases hupdate : (r.worker.pace.update r.worker.periodLength b.counters.conflicts).1 with
      | error f =>
        rw [hupdate] at h
        cases h
      | ok k =>
        rw [hupdate] at h
        exact Option.some.inj h ▸ Pace.one_le_of_update hlength hupdate
    · cases h
  · exact Option.some.inj h ▸ hlength
  · exact Option.some.inj h ▸ hinitial
  · cases h

end Runner

/-! ## Along a schedule -/

namespace Exchange

variable {config : Config} {x : Exchange σ}

/-- No worker ever has a set with the candidate `0`. -/
theorem Fresh.one_le_candidate (h : x.Fresh config) (hlength : 1 ≤ config.periodLength)
    (E : Engine σ) (schedule : List Nat) {v q : Nat} (hv : v < config.numWorkers)
    {f : List Clause × Nat}
    (hf : ((x.follow E schedule).shared.coordinator.box v).frozen? q = some f) : 1 ≤ f.2 := by
  induction schedule using List.reverseRecOn with
  | nil =>
    rw [show (x.follow E []).shared.coordinator.box v = _ from h.box_eq v hv] at hf
    cases q <;> cases hf
  | append_singleton t j ih =>
    have hx := h.standing.follow E t
    rw [follow_concat] at hf
    cases hr : (x.follow E t).runners[j]? with
    | none =>
      rw [turn_of_none E hr] at hf
      exact ih hf
    | some r =>
      rw [turn_of_some E hr] at hf
      have hid := (hx.runner j r hr).id_eq
      rcases Runner.frozen_step_cases (by rw [hid]; exact hx.lt_mailboxes (hx.lt_numWorkers hr))
        (hx.worker_numWorkers_eq hr) hf with hf | hn
      · exact ih hf
      · exact Runner.one_le_of_completing? (h.timed_follow hlength E t hr).length_pos
          (by rw [hx.periodLength_eq]; exact hlength) hn

/-- The conflicts that a worker's periods aim at are those of the configuration. -/
theorem Fresh.pace_conflicts_eq (h : x.Fresh config) (E : Engine σ) (schedule : List Nat) {w : Nat}
    {r : Runner σ} (hr : (x.follow E schedule).runners[w]? = some r) :
    r.worker.pace.conflicts = config.adaptiveConflicts := by
  induction schedule using List.reverseRecOn generalizing r with
  | nil =>
    rw [h.worker hr]
    rfl
  | append_singleton t j ih =>
    rw [follow_concat] at hr
    cases hs : (x.follow E t).runners[j]? with
    | none =>
      rw [turn_of_none E hs] at hr
      exact ih hr
    | some s =>
      rw [runners_turn E hs] at hr
      split at hr
      · rename_i hwj
        subst hwj
        obtain rfl := Option.some.inj hr
        rw [Runner.pace_conflicts_step]
        exact ih hs
      · exact ih hr

end Exchange

end ClauseExchange
