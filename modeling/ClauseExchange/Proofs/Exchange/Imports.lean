import ClauseExchange.Proofs.Exchange.Delivery

/-!
# What a boundary imports

At the end of a period a worker makes a round of the other workers, in cyclic order, and reads the
sets of each from its cursor on, until the next one is not due, or not there, or found open.
Whatever the others do meanwhile, the journal of the round lists the sets between the cursors at its
beginning and at its end, one producer after the other: `Worker.transfers`.

* `Runner.Round` is the account in the course of the round. `Runner.Round.step` says that the
  worker's own step keeps it, `Runner.Round.frame` that the steps of the others do.
* `Exchange.Standing.round_follow` says that it holds after every schedule.
-/

namespace ClauseExchange

namespace Coordinator

/-- What the import of a complete set brings: its clauses, and then its acknowledgment. -/
def transfer (c : Coordinator) (v q : Nat) : List Event :=
  match c.frozen? v q with
  | some (clauses, _) => [.imported v q clauses, .acknowledged v q true]
  | none => []

/-- What it brings to import the sets of the periods from `start` to before `stop`. -/
def transfers (c : Coordinator) (v start stop : Nat) : List Event :=
  (List.range' start (stop - start)).flatMap (c.transfer v)

variable {c c' : Coordinator} {v start stop : Nat}

theorem transfers_of_le (h : stop ≤ start) : c.transfers v start stop = [] := by
  rw [transfers, Nat.sub_eq_zero_of_le h]
  rfl

theorem transfers_succ (h : start ≤ stop) :
    c.transfers v start (stop + 1) = c.transfers v start stop ++ c.transfer v stop := by
  rw [transfers, Nat.succ_sub h, List.range'_1_concat, List.flatMap_append, List.flatMap_singleton,
    Nat.add_sub_cancel' h, transfers]

theorem transfer_congr {q : Nat} (h : c'.frozen? v q = c.frozen? v q) :
    c'.transfer v q = c.transfer v q := by rw [transfer, h, transfer]

theorem transfers_congr (h : ∀ q < stop, c'.frozen? v q = c.frozen? v q) :
    c'.transfers v start stop = c.transfers v start stop := by
  refine List.flatMap_congr fun q hq => transfer_congr (h q ?_)
  have hq := List.mem_range'_1.1 hq
  omega

/-- Clauses and acknowledgments are all that an import brings. -/
theorem eq_of_mem_transfer {q : Nat} {e : Event} (h : e ∈ c.transfer v q) :
    (∃ clauses, e = .imported v q clauses) ∨ e = .acknowledged v q true := by
  unfold transfer at h
  split at h
  · rcases List.mem_cons.1 h with rfl | h
    · exact .inl ⟨_, rfl⟩
    · exact .inr (List.mem_singleton.1 h)
  · cases h

theorem clauses_transfer (c : Coordinator) (v q : Nat) :
    (c.transfer v q).flatMap Event.clauses = ((c.frozen? v q).map (·.1)).getD [] := by
  unfold transfer
  cases c.frozen? v q with
  | none => rfl
  | some f => exact List.append_nil f.1

end Coordinator

/-- What is gathered along `1, …, n - 1` grows at its end if only the contribution of `o` does, and
nothing comes after it. -/
theorem flatMap_range'_eq_append {α : Type} {f g : Nat → List α} {n o : Nat} {l : List α}
    (hpos : 1 ≤ o) (hlt : o < n) (hsame : ∀ k, 1 ≤ k → k < n → k ≠ o → g k = f k)
    (hat : g o = f o ++ l) (hafter : ∀ k, o < k → k < n → f k = []) :
    (List.range' 1 (n - 1)).flatMap g = (List.range' 1 (n - 1)).flatMap f ++ l := by
  have hsplit : List.range' 1 (n - 1) =
      List.range' 1 (o - 1) ++ o :: List.range' (o + 1) (n - 1 - o) := by
    rw [← List.range'_succ, show n - 1 = (o - 1) + (n - 1 - o + 1) by omega, ← List.range'_append_1]
    congr 2 <;> omega
  have hbefore : (List.range' 1 (o - 1)).flatMap g = (List.range' 1 (o - 1)).flatMap f :=
    List.flatMap_congr fun k hk => by
      have hk := List.mem_range'_1.1 hk
      exact hsame k hk.1 (by omega) (by omega)
  have hnil {h : Nat → List α} (hh : ∀ k, o < k → k < n → h k = []) :
      (List.range' (o + 1) (n - 1 - o)).flatMap h = [] :=
    List.flatMap_eq_nil_iff.2 fun k hk => by
      have hk := List.mem_range'_1.1 hk
      exact hh k (by omega) (by omega)
  have hg : ∀ k, o < k → k < n → g k = [] := fun k hk hkn => by
    rw [hsame k (by omega) hkn hk.ne', hafter k hk hkn]
  rw [hsplit, List.flatMap_append, List.flatMap_append, List.flatMap_cons, List.flatMap_cons,
    hbefore, hat, hnil hg, hnil hafter, List.append_nil, List.append_nil, List.append_assoc]

namespace Worker

/-- The other workers, in the order in which worker `w` reads from them. -/
def producers (w : Worker) : List Nat := (List.range' 1 (w.numWorkers - 1)).map w.neighbour

/-- What worker `w` imports while its cursors move from where they are in `c₀` to where they are in
`c`. -/
def transfers (w : Worker) (c₀ c : Coordinator) : List Event :=
  w.producers.flatMap fun v => c.transfers v ((c₀.box v).next w.id) ((c.box v).next w.id)

/-- Why worker `w` goes on to another producer than `v`: the next set is not due, or there will be
none, or it was found open. -/
def Ended (w : Worker) (c : Coordinator) (found : Nat → Nat → Prop) (v : Nat) : Prop :=
  w.importPeriod c.margin < (c.box v).next w.id ∨
    ((c.box v).isClosed = true ∧ (c.box v).next w.id = (c.box v).past.size + 1) ∨
    found v ((c.box v).next w.id)

/-- How far worker `w` has come with its round, which began on `c₀`, when it stands at the producer
`position` places further on. -/
structure Reads (w : Worker) (c₀ c : Coordinator) (found : Nat → Nat → Prop) (position : Nat) :
    Prop where
  untouched : ∀ k, 1 ≤ k → k < w.numWorkers → position < k →
    (c.box (w.neighbour k)).next w.id = (c₀.box (w.neighbour k)).next w.id
  ended : c.margin ≤ w.period → ∀ k, 1 ≤ k → k < w.numWorkers → k < position →
    w.Ended c found (w.neighbour k)

variable {w : Worker} {c₀ c c' : Coordinator} {found found' : Nat → Nat → Prop} {position v : Nat}

theorem mem_producers (hid : w.id < w.numWorkers) :
    v ∈ w.producers ↔ v < w.numWorkers ∧ v ≠ w.id := by
  rw [producers, List.mem_map]
  constructor
  · rintro ⟨k, hk, rfl⟩
    have hk := List.mem_range'_1.1 hk
    exact ⟨w.neighbour_lt (by omega) k, neighbour_ne hid hk.1 (by omega)⟩
  · rintro ⟨hv, hne⟩
    obtain ⟨k, hpos, hlt, hk⟩ := exists_neighbour hid hv hne
    exact ⟨k, List.mem_range'_1.2 ⟨hpos, by omega⟩, hk⟩

theorem eq_of_mem_transfers {e : Event} (h : e ∈ w.transfers c₀ c) :
    ∃ v q, (∃ clauses, e = .imported v q clauses) ∨ e = .acknowledged v q true := by
  obtain ⟨v, -, h⟩ := List.mem_flatMap.1 h
  obtain ⟨q, -, h⟩ := List.mem_flatMap.1 h
  exact ⟨v, q, Coordinator.eq_of_mem_transfer h⟩

/-! ### What stays the same while no cursor of the worker moves -/

theorem transfers_congr (hid : w.id < w.numWorkers) (hw : w.numWorkers = c.numWorkers)
    (hc : c.AllLogs) (hle : ∀ v < c.numWorkers, (c.box v).next w.id ≤ (c.box v).completed)
    (hgrows : c.Grows c') (hnext : ∀ v, (c'.box v).next w.id = (c.box v).next w.id) :
    w.transfers c₀ c' = w.transfers c₀ c := by
  refine List.flatMap_congr fun v hv => ?_
  have hv : v < c.numWorkers := hw ▸ ((mem_producers hid).1 hv).1
  rw [hnext]
  refine Coordinator.transfers_congr fun q hq => hgrows.frozen_eq hv ?_
  rw [Coordinator.frozen?_eq hv, (hc v hv).frozen?_isSome_iff]
  exact hq.trans_le (hle v hv)

theorem Ended.frame (h : w.Ended c found v) (hv : v < c.numWorkers) (hgrows : c.Grows c')
    (hmargin : c'.margin = c.margin) (hnext : (c'.box v).next w.id = (c.box v).next w.id)
    (hfound : ∀ v q, found v q → found' v q) : w.Ended c' found' v := by
  unfold Ended
  rw [hnext, hmargin]
  rcases h with hdue | ⟨hclosed, hall⟩ | hopen
  · exact .inl hdue
  · obtain ⟨hclosed', hsize⟩ := (hgrows.boxes v hv).closed hclosed
    exact .inr (.inl ⟨hclosed', by rw [hsize]; exact hall⟩)
  · exact .inr (.inr (hfound _ _ hopen))

theorem Reads.frame (h : w.Reads c₀ c found position) (hw : w.numWorkers = c.numWorkers)
    (hgrows : c.Grows c') (hmargin : c'.margin = c.margin)
    (hnext : ∀ v, (c'.box v).next w.id = (c.box v).next w.id)
    (hfound : ∀ v q, found v q → found' v q) : w.Reads c₀ c' found' position where
  untouched k hk hlt hpos := (hnext _).trans (h.untouched k hk hlt hpos)
  ended hm k hk hlt hpos := by
    have hv : w.neighbour k < c.numWorkers := hw ▸ w.neighbour_lt (by omega) k
    exact (h.ended (hmargin ▸ hm) k hk hlt hpos).frame hv hgrows hmargin (hnext _) hfound

/-- The round begins with the next worker, -/
theorem Reads.first (h : w.Reads c₀ c found 0) : w.Reads c₀ c found 1 where
  untouched k hk hlt hpos := h.untouched k hk hlt (by omega)
  ended _ k hk _ hpos := absurd hk (by omega)

/-- goes on when there is nothing more to read from a producer, -/
theorem Reads.pass (h : w.Reads c₀ c found position)
    (hended : w.Ended c found (w.neighbour position)) : w.Reads c₀ c found (position + 1) where
  untouched k hk hlt hpos := h.untouched k hk hlt (by omega)
  ended hm k hk hlt hpos := by
    rcases Nat.lt_succ_iff_lt_or_eq.1 hpos with hpos | rfl
    · exact h.ended hm k hk hlt hpos
    · exact hended

/-- and ends with the last producer, or at once if the worker is not due to read anything. -/
theorem Reads.finish (h : w.Reads c₀ c found position)
    (hlast : w.numWorkers ≤ position ∨ w.period < c.margin) :
    w.Reads c₀ c found w.numWorkers where
  untouched k _ hlt hpos := absurd hpos (by omega)
  ended hm k hk hlt _ := h.ended hm k hk hlt (by omega)

/-! ### What an acknowledgment adds -/

section Acknowledged

variable {offset q : Nat}

/-- An acknowledgment moves one cursor past one set. -/
theorem next_acknowledged (hid : w.id < w.numWorkers) (hw : w.numWorkers = c.numWorkers)
    (hc : c.AllLogs) (hlt : offset < w.numWorkers) {k : Nat} (hk : k < w.numWorkers) :
    ((c.setBox (w.neighbour offset) ((c.box (w.neighbour offset)).acknowledged w.id q)).box
      (w.neighbour k)).next w.id =
      if k = offset then q + 1 else (c.box (w.neighbour k)).next w.id := by
  have hv : w.neighbour offset < c.numWorkers := hw ▸ w.neighbour_lt (by omega) offset
  rw [Coordinator.box_setBox hv]
  by_cases hko : k = offset
  · subst hko
    rw [if_pos rfl, if_pos rfl,
      Mailbox.next_acknowledged _ (by rw [(hc _ hv).size_cursors, ← hw]; exact hid), if_pos rfl]
  · rw [if_neg fun h => hko (neighbour_inj hid hk hlt h), if_neg hko]

theorem Reads.acknowledge (h : w.Reads c₀ c found offset) (hid : w.id < w.numWorkers)
    (hw : w.numWorkers = c.numWorkers) (hc : c.AllLogs) (hlt : offset < w.numWorkers) :
    w.Reads c₀ (c.setBox (w.neighbour offset) ((c.box (w.neighbour offset)).acknowledged w.id q))
      found offset where
  untouched k hk hkn hpos := by
    rw [next_acknowledged hid hw hc hlt hkn, if_neg hpos.ne']
    exact h.untouched k hk hkn hpos
  ended hm k hk hkn hpos := by
    have hv : w.neighbour offset < c.numWorkers := hw ▸ w.neighbour_lt (by omega) offset
    unfold Ended
    rw [next_acknowledged hid hw hc hlt hkn, if_neg hpos.ne, Coordinator.box_setBox hv,
      if_neg fun h => hpos.ne (neighbour_inj hid hkn hlt h)]
    exact h.ended hm k hk hkn hpos

/-- The set that is acknowledged comes after all that has been imported before. -/
theorem Reads.transfers_acknowledged (h : w.Reads c₀ c found offset) (hid : w.id < w.numWorkers)
    (hw : w.numWorkers = c.numWorkers) (hc : c.AllLogs) (hpos : 1 ≤ offset)
    (hlt : offset < w.numWorkers) (hq : (c.box (w.neighbour offset)).next w.id = q)
    (hstart : (c₀.box (w.neighbour offset)).next w.id ≤ q) :
    w.transfers c₀
        (c.setBox (w.neighbour offset) ((c.box (w.neighbour offset)).acknowledged w.id q)) =
      w.transfers c₀ c ++ c.transfer (w.neighbour offset) q := by
  have hnb (k : Nat) : w.neighbour k < c.numWorkers := hw ▸ w.neighbour_lt (by omega) k
  -- an acknowledgment leaves alone what the sets hold
  have hsame (k start stop : Nat) :
      (c.setBox (w.neighbour offset) ((c.box (w.neighbour offset)).acknowledged w.id q)).transfers
        (w.neighbour k) start stop = c.transfers (w.neighbour k) start stop := by
    refine Coordinator.transfers_congr fun j _ => ?_
    rw [Coordinator.frozen?_eq (by rw [Coordinator.numWorkers_setBox]; exact hnb k),
      Coordinator.frozen?_eq (hnb k), Coordinator.box_setBox (hnb offset)]
    split
    · rename_i hk
      rw [hk]
      exact Mailbox.frozen?_congr (Mailbox.contents_acknowledged _ _ _) j
    · rfl
  unfold transfers producers
  rw [List.flatMap_map, List.flatMap_map]
  refine flatMap_range'_eq_append hpos hlt (fun k hk hkn hko => ?_) ?_ fun k hk hkn => ?_
  · rw [hsame, next_acknowledged hid hw hc hlt hkn, if_neg hko]
  · rw [hsame, next_acknowledged hid hw hc hlt hlt, if_pos rfl, hq,
      Coordinator.transfers_succ hstart]
  · rw [h.untouched k (by omega) hkn hk]
    exact Coordinator.transfers_of_le le_rfl

/-- What has been read is acknowledged. -/
theorem Reads.append_acknowledged (h : w.Reads c₀ c found offset) (hid : w.id < w.numWorkers)
    (hw : w.numWorkers = c.numWorkers) (hc : c.AllLogs) (hpos : 1 ≤ offset)
    (hlt : offset < w.numWorkers) (hq : (c.box (w.neighbour offset)).next w.id = q)
    (hfrozen : ((c.box (w.neighbour offset)).frozen? q).isSome) (hstart : c₀.Grows c) :
    w.transfers c₀ c ++ (c.transfer (w.neighbour offset) q).take 1 ++
        [.acknowledged (w.neighbour offset) q true] =
      w.transfers c₀
        (c.setBox (w.neighbour offset) ((c.box (w.neighbour offset)).acknowledged w.id q)) := by
  have hv : w.neighbour offset < c.numWorkers := hw ▸ w.neighbour_lt (by omega) offset
  have hbegin := (hstart.boxes _ (by rwa [← hstart.numWorkers_eq])).next_le w.id
  rw [hq] at hbegin
  obtain ⟨f, hf⟩ := Option.isSome_iff_exists.1 hfrozen
  rw [h.transfers_acknowledged hid hw hc hpos hlt hq hbegin, List.append_assoc,
    Coordinator.transfer, Coordinator.frozen?_eq hv, hf]
  rfl

end Acknowledged

end Worker

/-- Whether a boundary has still to enter the next period. -/
def Stage.isEarly : Stage → Bool
  | .deciding | .answered _ => false
  | _ => true

/-- How many places further on, of `n` workers, the producer is at which a worker stands. -/
def Stage.position (n : Nat) : Stage → Nat
  | .exporting _ | .advancing => 0
  | .fetching offset _ | .reading offset _ _ | .acknowledging offset _ _ => offset
  | _ => n

/-- What worker `w` has read but not acknowledged. -/
def Stage.held (c : Coordinator) (w : Worker) : Stage → List Event
  | .acknowledging offset _ q => (c.transfer (w.neighbour offset) q).take 1
  | _ => []

variable {σ : Type}

/-- The account of a boundary of worker `w` that began on `c₀`, and of the `events` that it has
brought. -/
inductive Runner.Round (w : Worker) (c₀ c : Coordinator) (found : Nat → Nat → Prop) (r : Runner σ)
    (events : List Event) : Prop
  /-- The next period has still to be entered. -/
  | underway {b : Boundary} (hr : r.control = .boundary b) (hb : b.stage.isEarly = true)
      (hperiod : r.worker.period = w.period)
      (hreads : w.Reads c₀ c found (b.stage.position w.numWorkers))
      (hevents : events = w.transfers c₀ c ++ b.stage.held c w)
  /-- It has been entered. -/
  | entered (hperiod : w.period < r.worker.period)
      (hdone : ∀ b, r.control = .boundary b → b.stage = .deciding →
        r.worker.period = w.period + 1 → w.Reads c₀ c found w.numWorkers ∧
          events = w.transfers c₀ c ++ [.entered r.worker.periodLength])
  /-- A rule has been broken. -/
  | broken (h : r.control.isBroken = true)

/-- Runner `r` is that of worker `w`, and stands as it should. -/
structure Runner.Of (w : Worker) (c : Coordinator) (r : Runner σ) : Prop where
  id_eq : r.worker.id = w.id
  numWorkers_eq : r.worker.numWorkers = w.numWorkers
  id_lt : w.id < w.numWorkers
  workers_eq : w.numWorkers = c.numWorkers
  logs : c.AllLogs
  next_le : ∀ v < c.numWorkers, (c.box v).next w.id ≤ (c.box v).completed
  fits : r.control.Fits c r.worker

namespace Runner

variable {w : Worker} {c₀ c c' : Coordinator} {found found' : Nat → Nat → Prop} {r r' : Runner σ}
  {events new : List Event} {b : Boundary} {offset q : Nat} {t : Tally}

namespace Of

theorem id_lt_mailboxes (h : r.Of w c) : r.worker.id < c.numWorkers := by
  rw [h.id_eq, ← h.workers_eq]
  exact h.id_lt

theorem mailboxes_eq (h : r.Of w c) : r.worker.numWorkers = c.numWorkers :=
  h.numWorkers_eq.trans h.workers_eq

theorem neighbour_eq (h : r.Of w c) : r.worker.neighbour = w.neighbour :=
  Worker.neighbour_congr h.id_eq h.numWorkers_eq

/-- The set that is held is the next one to read. -/
theorem holds (h : r.Of w c) (hholds : c.Holds r.worker offset q) :
    1 ≤ offset ∧ offset < w.numWorkers ∧ (c.box (w.neighbour offset)).next w.id = q := by
  have hnext := hholds.next_eq
  rw [h.neighbour_eq, h.id_eq] at hnext
  exact ⟨hholds.offset_pos, h.numWorkers_eq ▸ hholds.offset_lt, hnext⟩

/-- What is held stays as it is. -/
theorem held_congr (h : r.Of w c) {stage : Stage} (hfits : stage.Fits c r.worker)
    (hgrows : c.Grows c') : stage.held c' w = stage.held c w := by
  cases stage with
  | acknowledging offset t q =>
    obtain ⟨-, -, hholds, hfrozen⟩ := hfits
    have hv : w.neighbour offset < c.numWorkers := by
      rw [← h.neighbour_eq, ← h.mailboxes_eq]
      exact hholds.neighbour_lt
    rw [h.neighbour_eq] at hfrozen
    exact congrArg (List.take 1) (Coordinator.transfer_congr
      (hgrows.frozen_eq hv (by rwa [Coordinator.frozen?_eq hv])))
  | _ => rfl

/-- The worker goes on because no set was fetched. -/
theorem ended_of_fetch (h : r.Of w c) (hperiod : r.worker.period = w.period)
    (hr : r.control = .boundary b) (hb : b.stage = .fetching offset t)
    (ho : offset < r.worker.numWorkers)
    (hf : c.fetch (r.worker.neighbour offset) r.worker.id (r.worker.importPeriod c.margin) =
      .ok none) : w.Ended c found (w.neighbour offset) := by
  obtain ⟨-, -, -, -, hpos⟩ := fits_boundary h.fits hr hb
  have hnone := fetch_none_cases h.id_lt_mailboxes h.logs h.mailboxes_eq hpos ho
    (by rw [h.id_eq]; exact h.next_le) hf
  rw [Worker.importPeriod, hperiod, h.neighbour_eq, h.id_eq] at hnone
  exact hnone.imp_right .inl

/-- The worker goes on because the set was found open. -/
theorem ended_of_open (h : r.Of w c) (hr : r.control = .boundary b)
    (hb : b.stage = .reading offset t q) (hopen : found (w.neighbour offset) q) :
    w.Ended c found (w.neighbour offset) := by
  obtain ⟨-, -, -, -, hholds⟩ := fits_boundary h.fits hr hb
  obtain ⟨-, -, hnext⟩ := h.holds hholds
  rw [← hnext] at hopen
  exact .inr (.inr hopen)

end Of

/-! ### The steps of others -/

/-- The step of another worker changes nothing about the account. -/
theorem Round.frame {j : Nat} (h : r.Round w c₀ c found events) (hof : r.Of w c)
    (heff : c.Effect j c') (hj : j < c.numWorkers) (hne : w.id ≠ j)
    (hfound : ∀ v q, found v q → found' v q) : r.Round w c₀ c' found' events := by
  have hgrows := heff.allGrows hj hof.logs
  have hnext := heff.next_eq hj hof.logs hne
  have hmove {position : Nat} (hreads : w.Reads c₀ c found position) :
      w.Reads c₀ c' found' position :=
    hreads.frame hof.workers_eq hgrows heff.margin_eq hnext hfound
  have htransfers : w.transfers c₀ c' = w.transfers c₀ c :=
    Worker.transfers_congr hof.id_lt hof.workers_eq hof.logs hof.next_le hgrows hnext
  cases h with
  | underway hr hb hperiod hreads hevents =>
    refine .underway hr hb hperiod (hmove hreads) ?_
    obtain ⟨-, -, hstage⟩ := fits_boundary hof.fits hr rfl
    rw [hevents, htransfers, hof.held_congr hstage hgrows]
  | entered hperiod hdone =>
    refine .entered hperiod fun b hr hb hsucc => ?_
    rw [htransfers]
    exact (hdone b hr hb hsucc).imp_left hmove
  | broken h => exact .broken h

/-- What has been found open stays found. -/
theorem Round.mono (h : r.Round w c₀ c found events) (hw : w.numWorkers = c.numWorkers)
    (hfound : ∀ v q, found v q → found' v q) : r.Round w c₀ c found' events := by
  have hmono {position : Nat} (hreads : w.Reads c₀ c found position) :
      w.Reads c₀ c found' position := hreads.frame hw (.refl c) rfl (fun _ => rfl) hfound
  cases h with
  | underway hr hb hperiod hreads hevents => exact .underway hr hb hperiod (hmono hreads) hevents
  | entered hperiod hdone =>
    exact .entered hperiod fun b hr hb hsucc => (hdone b hr hb hsucc).imp_left hmono
  | broken h => exact .broken h

/-! ### The worker's own step -/

/-- Outside of an acknowledgment nothing is held. -/
theorem held_eq_nil {stage : Stage} (h : ∀ offset t q, stage ≠ .acknowledging offset t q) :
    stage.held c w = [] := by
  cases stage with
  | acknowledging offset t q => exact absurd rfl (h offset t q)
  | _ => rfl

/-- A step that is no acknowledgment leaves the account of what has been acknowledged alone. -/
theorem Of.reads_step (hof : r.Of w c) (hstep : Step r c new r' c')
    (hr : r.control = .boundary b) (hnot : ∀ offset t q, b.stage ≠ .acknowledging offset t q)
    {position : Nat} (hreads : w.Reads c₀ c found position)
    (hfound : ∀ v q, found v q → found' v q) :
    w.Reads c₀ c' found' position ∧ w.transfers c₀ c' = w.transfers c₀ c := by
  have heff := hstep.effect hof.id_lt_mailboxes hof.logs hof.mailboxes_eq hof.fits
  have hgrows := heff.allGrows hof.id_lt_mailboxes hof.logs
  have hcases := hstep.next_cases hof.id_lt_mailboxes hof.logs hof.mailboxes_eq hof.fits
  have hnext := hcases.resolve_right
    fun ⟨b', offset, t, q, hr', hb', _⟩ =>
      hnot offset t q (Control.boundary.inj (hr.symm.trans hr') ▸ hb')
  exact ⟨hreads.frame hof.workers_eq hgrows heff.margin_eq (fun v => hnext v w.id) hfound,
    Worker.transfers_congr hof.id_lt hof.workers_eq hof.logs hof.next_le hgrows
      fun v => hnext v w.id⟩

/-- The account after a set has been acknowledged. -/
theorem Of.round_acknowledge (hof : r.Of w c) (hr : r.control = .boundary b)
    (hb : b.stage = .acknowledging offset t q) (hperiod : r.worker.period = w.period)
    (hok : (c.acknowledge (r.worker.neighbour offset) r.worker.id q).1 = .ok ())
    (hreads : w.Reads c₀ c found offset)
    (hevents : events = w.transfers c₀ c ++ (c.transfer (w.neighbour offset) q).take 1)
    (hstart : c₀.Grows c) :
    ({ r with control := .boundary { b with stage := .fetching offset t } } : Runner σ).Round w c₀
      (c.acknowledge (r.worker.neighbour offset) r.worker.id q).2 found
      (events ++ [.acknowledged (r.worker.neighbour offset) q
        (c.frozen? (r.worker.neighbour offset) q).isSome]) := by
  obtain ⟨-, -, -, -, hholds, hfrozen⟩ := fits_boundary hof.fits hr hb
  obtain ⟨hpos, hlt, hnext⟩ := hof.holds hholds
  have hv : w.neighbour offset < c.numWorkers := by
    rw [← hof.workers_eq]
    exact w.neighbour_lt (by omega) offset
  rcases acknowledge_eq hof.id_lt_mailboxes hof.logs hof.mailboxes_eq hholds with
    ⟨-, f, hf⟩ | ⟨heq, -⟩
  · rw [hok] at hf
    cases hf
  rw [heq, hof.neighbour_eq, hof.id_eq]
  rw [hof.neighbour_eq] at hfrozen
  rw [Coordinator.frozen?_eq hv, hfrozen]
  refine .underway rfl rfl hperiod (hreads.acknowledge hof.id_lt hof.workers_eq hof.logs hlt) ?_
  show _ = _ ++ []
  rw [List.append_nil, hevents]
  exact hreads.append_acknowledged hof.id_lt hof.workers_eq hof.logs hpos hlt hnext hfrozen hstart

/-- The account before the next period is entered. -/
theorem Round.step_underway (hof : r.Of w c) (hr : r.control = .boundary b)
    (hb : b.stage.isEarly = true) (hperiod : r.worker.period = w.period)
    (hreads : w.Reads c₀ c found (b.stage.position w.numWorkers))
    (hevents : events = w.transfers c₀ c ++ b.stage.held c w) (hstep : Step r c new r' c')
    (hstart : c₀.Grows c) (hfound : ∀ v q, found v q → found' v q)
    (hopen : ∀ b offset t q set, r.control = .boundary b → b.stage = .reading offset t q →
      c.set? (w.neighbour offset) q = some set → set.isCompleted = false →
        found' (w.neighbour offset) q) :
    r'.Round w c₀ c' found' (events ++ new) := by
  have hnum := (hstep.effect hof.id_lt_mailboxes hof.logs hof.mailboxes_eq hof.fits).numWorkers_eq
  have hsame {b' : Boundary} (hr' : r.control = .boundary b') : b' = b :=
    Control.boundary.inj (hr'.symm.trans hr)
  have hkeep (hnot : ∀ offset t q, b.stage ≠ .acknowledging offset t q) :
      w.Reads c₀ c' found' (b.stage.position w.numWorkers) ∧ events = w.transfers c₀ c' := by
    obtain ⟨hreads', htransfers⟩ := hof.reads_step hstep hr hnot hreads hfound
    rw [hevents, held_eq_nil hnot, List.append_nil]
    exact ⟨hreads', htransfers.symm⟩
  -- a step that brings nothing
  have hgo {p : Post σ} {stage : Stage} (hp : p.worker.period = r.worker.period)
      (hnot : ∀ offset t q, b.stage ≠ .acknowledging offset t q) (hearly : stage.isEarly = true)
      (hheld : stage.held c' w = [])
      (hmove : w.Reads c₀ c' found' (b.stage.position w.numWorkers) →
        w.Reads c₀ c' found' (stage.position w.numWorkers)) :
      (⟨p, .boundary { b with stage }⟩ : Runner σ).Round w c₀ c' found' (events ++ []) := by
    obtain ⟨hreads', hevents'⟩ := hkeep hnot
    refine .underway rfl hearly (hp.trans hperiod) (hmove hreads') ?_
    rw [List.append_nil, hheld, List.append_nil, hevents']
  have hnot {k : Control} (hk : r.control = k) (houtside : ∀ b, k ≠ .boundary b) {p : Prop} : p :=
    absurd (hk.symm.trans hr) (houtside b)
  have hlate (h : b.stage.isEarly = false) {p : Prop} : p := by
    rw [hb] at h
    cases h
  cases hstep with
  | stay =>
    rw [List.append_nil]
    exact (Round.underway hr hb hperiod hreads hevents).mono hof.workers_eq hfound
  | sort hr' hb' hq hstage =>
    obtain rfl := hsame hr'
    rw [hb'] at hgo
    rcases hstage with rfl | ⟨d', rfl⟩ <;> exact hgo hq.period_eq (by simp) rfl rfl id
  | publish hr' hb' hq =>
    obtain rfl := hsame hr'
    rw [hb'] at hgo
    exact hgo hq.period_eq (by simp) rfl rfl id
  | advance hr' hb' hq =>
    obtain rfl := hsame hr'
    rw [hb'] at hgo
    split
    · rename_i hp
      rw [hq.period_eq, hperiod] at hp
      exact hgo hq.period_eq (by simp) rfl rfl fun h => h.finish (.inr hp)
    · exact hgo hq.period_eq (by simp) rfl rfl Worker.Reads.first
  | skip hr' hb' ho hf =>
    obtain rfl := hsame hr'
    rw [hb'] at hgo
    exact hgo rfl (by simp) rfl rfl fun h => h.pass (hof.ended_of_fetch hperiod hr hb' ho hf)
  | fetch hr' hb' =>
    obtain rfl := hsame hr'
    rw [hb'] at hgo
    exact hgo rfl (by simp) rfl rfl id
  | survey hr' hb' ho =>
    obtain rfl := hsame hr'
    rw [hb'] at hgo
    exact hgo rfl (by simp) rfl rfl fun h => h.finish (.inl (hof.numWorkers_eq ▸ ho))
  | passOver hr' hb' _ hset =>
    obtain rfl := hsame hr'
    obtain ⟨set, hset, hincomplete⟩ := hset
    rw [hof.neighbour_eq] at hset
    have hfind := hopen _ _ _ _ set hr hb' hset hincomplete
    rw [hb'] at hgo
    exact hgo rfl (by simp) rfl rfl fun h => h.pass (hof.ended_of_open hr hb' hfind)
  | read hr' hb' hf =>
    obtain rfl := hsame hr'
    obtain ⟨hreads', hevents'⟩ := hkeep (by simp [hb'])
    rw [hb'] at hreads'
    refine .underway rfl rfl hperiod hreads' ?_
    rw [hof.neighbour_eq] at hf ⊢
    rw [hevents', Stage.held, Coordinator.transfer, hf]
    rfl
  | acknowledge hr' hb' hok =>
    obtain rfl := hsame hr'
    rw [hb'] at hreads hevents
    have hacknowledged := hof.round_acknowledge hr hb' hperiod hok hreads hevents hstart
    exact hacknowledged.mono (hof.workers_eq.trans hnum.symm) hfound
  | average hr' hb' hq =>
    obtain rfl := hsame hr'
    rw [hb'] at hgo
    exact hgo hq.period_eq (by simp) rfl rfl id
  | enter hr' hb' _ hperiod' _ _ _ hlength =>
    obtain rfl := hsame hr'
    obtain ⟨hreads', hevents'⟩ := hkeep (by simp [hb'])
    rw [hb'] at hreads'
    refine .entered (by rw [hperiod', hperiod]; exact Nat.lt_succ_self _)
      fun _ _ _ _ => ⟨hreads', ?_⟩
    rw [hevents', hlength]
  | fail => exact .broken rfl
  | decide hr' hb' => exact hlate (by rw [← hsame hr', hb']; rfl)
  | reply hr' hb' => exact hlate (by rw [← hsame hr', hb']; rfl)
  | give hr' =>
    rcases hr' with hr' | hr' | ⟨verdict, f, hr', -⟩ <;> exact hnot hr' (by simp)
  | _ => exact hnot ‹r.control = _› (by simp)

/-- The account after a worker's own step. -/
theorem Round.step (h : r.Round w c₀ c found events) (hof : r.Of w c)
    (hstep : Step r c new r' c') (hstart : c₀.Grows c) (hfound : ∀ v q, found v q → found' v q)
    (hopen : ∀ b offset t q set, r.control = .boundary b → b.stage = .reading offset t q →
      c.set? (w.neighbour offset) q = some set → set.isCompleted = false →
        found' (w.neighbour offset) q) :
    r'.Round w c₀ c' found' (events ++ new) := by
  cases h with
  | underway hr hb hperiod hreads hevents =>
    exact step_underway hof hr hb hperiod hreads hevents hstep hstart hfound hopen
  | entered hperiod hdone =>
    refine .entered ?_ fun b hr hb hsucc => ?_
    · rcases hstep.length_cases with ⟨hsame, -⟩ | ⟨-, -, -, -, hnext, -⟩ <;> omega
    · -- no later boundary is about to decide in this period
      rcases hstep.deciding_cases hr hb with ⟨rfl, rfl, rfl⟩ | hnext
      · obtain ⟨hreads, hevents⟩ := hdone b hr hb hsucc
        rw [List.append_nil]
        exact ⟨hreads.frame hof.workers_eq (.refl _) rfl (fun _ => rfl) hfound, hevents⟩
      · omega
  | broken h => exact .broken (hstep.isBroken h)

end Runner

/-! ## Whole boundaries -/

namespace Exchange

variable {config : Config} {x : Exchange σ}

/-- In the course of the schedule `t` worker `w` has come upon the set of producer `v` and period
`q` while that was open. -/
def FoundOpen (E : Engine σ) (x : Exchange σ) (t : List Nat) (w v q : Nat) : Prop :=
  ∃ u r b offset tally set, u ++ [w] <+: t ∧ (x.follow E u).runners[w]? = some r ∧
    r.control = .boundary b ∧ b.stage = .reading offset tally q ∧ r.worker.neighbour offset = v ∧
    (x.follow E u).shared.coordinator.set? v q = some set ∧ set.isCompleted = false

theorem FoundOpen.append {E : Engine σ} {t : List Nat} {w v q : Nat} (h : x.FoundOpen E t w v q)
    (u : List Nat) : x.FoundOpen E (t ++ u) w v q := by
  obtain ⟨s, r, b, offset, tally, set, hs, hfound⟩ := h
  exact ⟨s, r, b, offset, tally, set, hs.trans (List.prefix_append t u), hfound⟩

/-- Every runner is that of its worker, at any time. -/
theorem Standing.runner_of (hx : x.Standing config) {i : Nat} {r : Runner σ}
    (hr : x.runners[i]? = some r) {E : Engine σ} {t : List Nat} {q : Runner σ}
    (hq : (x.follow E t).runners[i]? = some q) :
    q.Of r.worker (x.follow E t).shared.coordinator := by
  have hy := hx.follow E t
  have hstands := hx.runner i r hr
  have hstandsq := hy.runner i q hq
  refine ⟨hstandsq.id_eq.trans hstands.id_eq.symm,
    hstandsq.numWorkers_eq.trans hstands.numWorkers_eq.symm, ?_, ?_, hy.logs, fun v hv => ?_,
    hstandsq.fits⟩
  · rw [hstands.id_eq, hstands.numWorkers_eq]
    exact hx.lt_numWorkers hr
  · rw [hstands.numWorkers_eq, hy.numWorkers_eq]
  · rw [hy.numWorkers_eq] at hv
    exact hy.next_le v hv _

/-- The account of a boundary after a schedule. -/
theorem Standing.round_follow (hx : x.Standing config) (E : Engine σ) {i : Nat} {r : Runner σ}
    {b : Boundary} {d : Drain} (hr : x.runners[i]? = some r) (hcontrol : r.control = .boundary b)
    (hstage : b.stage = .exporting d) (t : List Nat) :
    ∃ r', (x.follow E t).runners[i]? = some r' ∧
      r'.Round r.worker x.shared.coordinator (x.follow E t).shared.coordinator
        (x.FoundOpen E t i) (x.journal E t i) := by
  refine hx.runner_follow E hr
    (P := fun t c q events => q.Round r.worker x.shared.coordinator c (x.FoundOpen E t i) events)
    ?_ (fun t j q hq h => ?_) (fun t c' q q' new hq h hstep => ?_)
    (fun t j c' q hq h hij hj heff => ?_) t
  · refine .underway hcontrol (by rw [hstage]; rfl) rfl ?_ ?_
    · rw [hstage]
      exact ⟨fun _ _ _ _ => rfl, fun _ k _ _ hk => absurd hk (Nat.not_lt_zero k)⟩
    · rw [hstage]
      refine Eq.symm ((List.append_nil _).trans (List.flatMap_eq_nil_iff.2 fun v _ => ?_))
      exact Coordinator.transfers_of_le le_rfl
  · exact h.mono (hx.runner_of hr hq).workers_eq fun _ _ hfound => hfound.append [j]
  · have hof := hx.runner_of hr hq
    refine h.step hof hstep (hx.allGrows_follow E t) (fun _ _ hfound => hfound.append [i])
      fun b offset tally k set hb hstage hset hopen => ?_
    exact ⟨t, q, b, offset, tally, set, List.prefix_rfl, hq, hb, hstage,
      congrFun hof.neighbour_eq offset, hset, hopen⟩
  · exact h.frame (hx.runner_of hr hq) heff hj (by rw [(hx.runner i r hr).id_eq]; exact hij)
      fun _ _ hfound => hfound.append [j]

end Exchange

end ClauseExchange
