import ClauseExchange.Proofs.Exchange.Standing

/-!
# Records of a worker's steps

Whatever can be read off a step that a runner is about to take can be collected along a schedule:
`Exchange.record E what x schedule w` lists what `what` reads off the steps of worker `w`.

`Exchange.Standing.record_follow` is the induction over a schedule for statements about a worker, its
journal and such a record. Its hypotheses say what one step of the worker does, and that the steps
of the others leave the statement alone.
-/

namespace ClauseExchange

namespace Exchange

variable {σ α : Type}

/-- What the steps of worker `w` have brought along a schedule. -/
def record (E : Engine σ) (what : Runner σ → Shared → List α) :
    Exchange σ → List Nat → Nat → List α
  | _, [], _ => []
  | x, i :: schedule, w =>
    (if i = w then (x.runners[w]?.map fun r => what r x.shared).getD [] else []) ++
      record E what (x.turn E i) schedule w

section Record

variable (E : Engine σ) (what : Runner σ → Shared → List α) (x : Exchange σ)

theorem record_append (s t : List Nat) (w : Nat) :
    x.record E what (s ++ t) w = x.record E what s w ++ (x.follow E s).record E what t w := by
  induction s generalizing x with
  | nil => rfl
  | cons i s ih =>
    rw [List.cons_append, record, record, ih, List.append_assoc]
    rfl

theorem record_concat (s : List Nat) (i w : Nat) :
    x.record E what (s ++ [i]) w = x.record E what s w ++
      if i = w then ((x.follow E s).runners[w]?.map fun r => what r (x.follow E s).shared).getD []
      else [] := by
  rw [record_append, record, record, List.append_nil]

end Record

variable {config : Config} {x : Exchange σ}

/-- What holds of a worker, its journal and its record after every schedule, because its own steps
and the calls of the others keep it. -/
theorem Standing.record_follow (h : x.Standing config) (E : Engine σ)
    (what : Runner σ → Shared → List α) {w : Nat} {r : Runner σ} (hr : x.runners[w]? = some r)
    {P : Coordinator → Runner σ → List Event → List α → Prop} (nil : P x.shared.coordinator r [] [])
    (own : ∀ t q events log, (x.follow E t).runners[w]? = some q →
      P (x.follow E t).shared.coordinator q events log →
      P (q.step E (x.follow E t).shared).2.coordinator (q.step E (x.follow E t).shared).1
        (events ++ q.events E (x.follow E t).shared) (log ++ what q (x.follow E t).shared))
    (other : ∀ t j c q events log, (x.follow E t).runners[w]? = some q → w ≠ j →
      j < (x.follow E t).shared.coordinator.numWorkers →
      (x.follow E t).shared.coordinator.Effect j c →
      P (x.follow E t).shared.coordinator q events log → P c q events log)
    (t : List Nat) : ∃ q, (x.follow E t).runners[w]? = some q ∧
      P (x.follow E t).shared.coordinator q (x.journal E t w) (x.record E what t w) := by
  induction t using List.reverseRecOn with
  | nil => exact ⟨r, hr, nil⟩
  | append_singleton t j ih =>
    obtain ⟨q, hq, hP⟩ := ih
    have hy := h.follow E t
    rw [follow_concat, journal_concat, record_concat]
    by_cases hjw : j = w
    · subst hjw
      rw [if_pos rfl, if_pos rfl, events_of_some E hq, hq, Option.map_some, Option.getD_some,
        turn_of_some E hq]
      refine ⟨(q.step E (x.follow E t).shared).1, ?_, own t q _ _ hq hP⟩
      rw [← turn_of_some E hq, runners_turn E hq, if_pos rfl]
    · rw [if_neg hjw, if_neg hjw, List.append_nil, List.append_nil]
      rcases hy.turn_cases E j with ⟨heq, -⟩ | ⟨s, s', hs, -, heff, hrunners⟩
      · rw [heq]
        exact ⟨q, hq, hP⟩
      · refine ⟨q, by rw [hrunners, if_neg (Ne.symm hjw)]; exact hq, ?_⟩
        exact other t j _ q _ _ hq (Ne.symm hjw) (hy.lt_mailboxes (hy.lt_numWorkers hs)) heff hP

end Exchange

end ClauseExchange
