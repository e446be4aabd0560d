import ClauseExchange.Proofs.Exchange.Candidates
import ClauseExchange.Proofs.Exchange.ImportLag
import Mathlib.Algebra.BigOperators.Group.Finset.Basic

/-!
# Adding up candidates

With an adaptive length, a worker adds up the candidates for one period that it reads at a boundary,
and looks up its own at the end. In the mode that does not wait it may miss some of them, and in
either mode it may read candidates for earlier periods, which do not count.

* `Tally.Counts` says which candidates a worker has counted so far.
* `Runner.Sums.step` says that a worker's own step keeps the account, `Runner.Sums.frame` that the
  steps of the others do.
* `Exchange.Fresh.sums_follow` puts it together for every schedule, in both modes.
-/

namespace ClauseExchange

namespace Coordinator

/-- The candidate recorded in the set of a producer and a period. -/
def candidate (c : Coordinator) (v q : Nat) : Nat := ((c.set? v q).bind (·.nextLength?)).getD 0

/-- The producers from which worker `i` has read the set of a period. -/
def readBy (c : Coordinator) (i q : Nat) : Finset Nat :=
  (Finset.range c.numWorkers).filter fun v => v ≠ i ∧ q < (c.box v).next i

/-- The mean of the candidates for period `q` of the workers in `used`, rounded down. -/
def mean (c : Coordinator) (q : Nat) (used : Finset Nat) : Nat :=
  (∑ v ∈ used, c.candidate v q) / used.card

/-- A length is the mean of the candidates for period `q` of the workers in `used`, of which worker
`i` is one, rounded down and fitted to the bounds. -/
structure Averages (c : Coordinator) (config : Config) (i q length : Nat) (used : Finset Nat) :
    Prop where
  mem : i ∈ used
  lt : ∀ v ∈ used, v < c.numWorkers
  frozen : ∀ v ∈ used, (c.frozen? v q).isSome
  /-- The length is at least `1`; it is at least the lower bound, and at most the upper one if that is
  positive, and else the mean. -/
  length_eq : length = max 1 (if config.adaptiveUpper = 0
    then max (c.mean q used) config.adaptiveLower
    else min (max (c.mean q used) config.adaptiveLower) config.adaptiveUpper)

variable {c c' : Coordinator} {config : Config} {i v p q length : Nat} {used : Finset Nat}

theorem mem_readBy :
    v ∈ c.readBy i q ↔ v < c.numWorkers ∧ v ≠ i ∧ q < (c.box v).next i := by
  rw [readBy, Finset.mem_filter, Finset.mem_range]

theorem self_notMem_readBy (c : Coordinator) (i q : Nat) : i ∉ c.readBy i q :=
  fun hmem => (mem_readBy.1 hmem).2.1 rfl

/-- Only complete sets have been read. -/
theorem frozen_of_mem_readBy (hc : c.AllLogs)
    (hle : ∀ v < c.numWorkers, (c.box v).next i ≤ (c.box v).completed) (hv : v ∈ c.readBy i q) :
    (c.frozen? v q).isSome := by
  obtain ⟨hv, -, hlt⟩ := mem_readBy.1 hv
  rw [frozen?_eq hv, (hc v hv).frozen?_isSome_iff]
  exact hlt.trans_le (hle v hv)

/-- An acknowledgment adds its producer to those that have read the set, if it is of the period in
question and not of an earlier one. -/
theorem readBy_acknowledged (hc : c.AllLogs) (hi : i < c.numWorkers) (hv : v < c.numWorkers)
    (hvi : v ≠ i) (hnext : (c.box v).next i = q) (hle : q ≤ p) :
    (c.setBox v ((c.box v).acknowledged i q)).readBy i p =
      if q = p then insert v (c.readBy i p) else c.readBy i p := by
  have hsize : i < (c.box v).cursors.size := by rw [(hc v hv).size_cursors]; exact hi
  have hmem (u : Nat) : u ∈ (c.setBox v ((c.box v).acknowledged i q)).readBy i p ↔
      u ∈ c.readBy i p ∨ q = p ∧ u = v := by
    rw [mem_readBy, mem_readBy, numWorkers_setBox, box_setBox hv]
    by_cases huv : u = v
    · subst huv
      rw [if_pos rfl, Mailbox.next_acknowledged _ hsize, if_pos rfl]
      omega
    · simp [huv]
  ext u
  rw [hmem]
  split <;> simp_all [or_comm]

/-- The candidate of a complete set is part of what can never change. -/
theorem nextLength?_of_frozen {f : List Clause × Nat} (h : c.frozen? v q = some f) :
    (c.set? v q).bind (·.nextLength?) = some f.2 := by
  unfold frozen? at h
  cases hs : c.set? v q with
  | none => simp [hs] at h
  | some s =>
    rw [hs, Option.bind_some, ClauseSet.frozen?, Option.map_eq_some_iff] at h
    obtain ⟨n, hn, rfl⟩ := h
    rw [Option.bind_some, hn]

theorem candidate_of_frozen {f : List Clause × Nat} (h : c.frozen? v q = some f) :
    c.candidate v q = f.2 := by rw [candidate, nextLength?_of_frozen h, Option.getD_some]

/-- A worker does not read its own mailbox. -/
theorem readBy_setBox_self (hi : i < c.numWorkers) (m : Mailbox) (q : Nat) :
    (c.setBox i m).readBy i q = c.readBy i q := by
  ext v
  rw [mem_readBy, mem_readBy, numWorkers_setBox, box_setBox hi]
  refine and_congr_right fun _ => and_congr_right fun hvi => ?_
  rw [if_neg hvi]

/-! ## What is complete stays so -/

theorem Grows.candidate_eq (h : c.Grows c') (hv : v < c.numWorkers)
    (hf : (c.frozen? v q).isSome) : c'.candidate v q = c.candidate v q := by
  obtain ⟨f, hf'⟩ := Option.isSome_iff_exists.1 hf
  rw [candidate_of_frozen hf', candidate_of_frozen ((h.frozen_eq hv hf).trans hf')]

theorem Grows.candidate_eq_of_mem_readBy (h : c.Grows c') (hc : c.AllLogs)
    (hle : ∀ v < c.numWorkers, (c.box v).next i ≤ (c.box v).completed) {p : Nat}
    (hv : v ∈ c.readBy i p) : c'.candidate v p = c.candidate v p :=
  h.candidate_eq (mem_readBy.1 hv).1 (frozen_of_mem_readBy hc hle hv)

/-- The same with a producer `u` whose set of period `q` has been read and is not acknowledged. -/
theorem Grows.candidate_eq_of_mem_ite (h : c.Grows c') (hc : c.AllLogs)
    (hle : ∀ v < c.numWorkers, (c.box v).next i ≤ (c.box v).completed) {u : Nat}
    (hu : u < c.numWorkers) (hf : ((c.box u).frozen? q).isSome)
    (hv : v ∈ if q = p then insert u (c.readBy i p) else c.readBy i p) :
    c'.candidate v p = c.candidate v p := by
  split at hv
  · rename_i hqp
    subst hqp
    rcases Finset.mem_insert.1 hv with rfl | hv
    · exact h.candidate_eq hu (by rwa [frozen?_eq hu])
    · exact h.candidate_eq_of_mem_readBy hc hle hv
  · exact h.candidate_eq_of_mem_readBy hc hle hv

/-- Nobody else's step adds to the sets that a worker has read. -/
theorem Effect.readBy_eq {j : Nat} (h : c.Effect j c') (hj : j < c.numWorkers) (hc : c.AllLogs)
    (hne : i ≠ j) (q : Nat) : c'.readBy i q = c.readBy i q := by
  ext v
  rw [mem_readBy, mem_readBy, h.numWorkers_eq, h.next_eq hj hc hne]

theorem Averages.grows (h : c.Averages config i q length used) (hgrows : c.Grows c') :
    c'.Averages config i q length used where
  mem := h.mem
  lt v hv := by rw [hgrows.numWorkers_eq]; exact h.lt v hv
  frozen v hv := by rw [hgrows.frozen_eq (h.lt v hv) (h.frozen v hv)]; exact h.frozen v hv
  length_eq := by
    rw [h.length_eq, mean, mean, Finset.sum_congr rfl fun v hv =>
      (hgrows.candidate_eq (h.lt v hv) (h.frozen v hv)).symm]

end Coordinator

/-! ## Counting candidates -/

/-- A tally has counted the candidates of period `q` of the producers `vs`. -/
structure Tally.Counts (t : Tally) (c : Coordinator) (q : Nat) (vs : Finset Nat) : Prop where
  lengthSum_eq : t.lengthSum = ∑ v ∈ vs, c.candidate v q
  candidates_eq : t.candidates = vs.card

namespace Tally.Counts

variable {t t' : Tally} {c c' : Coordinator} {v p q : Nat} {vs : Finset Nat}

theorem empty : ({} : Tally).Counts c q ∅ := ⟨rfl, rfl⟩

theorem congr (h : t.Counts c q vs) (hsame : ∀ v ∈ vs, c'.candidate v q = c.candidate v q) :
    t.Counts c' q vs := ⟨by rw [h.lengthSum_eq, Finset.sum_congr rfl hsame], h.candidates_eq⟩

/-- One more set is read. -/
theorem add (h : t.Counts c q vs) {set : ClauseSet} (hadd : t.add set q = .ok t')
    (hset : c.set? v q = some set) (hperiod : set.period = q) {f : List Clause × Nat}
    (hf : c.frozen? v q = some f) (hv : v ∉ vs) : t'.Counts c q (insert v vs) := by
  have hn : set.nextLength? = some f.2 := by
    have hn := Coordinator.nextLength?_of_frozen hf
    rwa [hset, Option.bind_some] at hn
  unfold Tally.add at hadd
  rw [hn] at hadd
  dsimp only at hadd
  rw [if_pos hperiod] at hadd
  cases hsum : Word.add t.lengthSum f.2 with
  | error e =>
    rw [hsum] at hadd
    cases hadd
  | ok sum =>
    rw [hsum] at hadd
    obtain rfl := Except.ok.inj hadd
    obtain ⟨rfl, -⟩ := Word.add_eq_ok_iff.1 hsum
    refine ⟨?_, ?_⟩
    · show t.lengthSum + f.2 = _
      rw [Finset.sum_insert hv, h.lengthSum_eq, Coordinator.candidate_of_frozen hf, Nat.add_comm]
    · show t.candidates + 1 = _
      rw [Finset.card_insert_of_notMem hv, h.candidates_eq]

end Tally.Counts

namespace Tally

variable {t t' : Tally} {c : Coordinator} {set : ClauseSet} {p q v : Nat} {vs : Finset Nat}

/-- The candidate of a set of another period does not count. -/
theorem add_of_ne (hadd : t.add set p = .ok t') (hne : set.period ≠ p) :
    t'.lengthSum = t.lengthSum ∧ t'.candidates = t.candidates := by
  unfold add at hadd
  split at hadd
  · obtain rfl := Except.ok.inj hadd
    exact ⟨rfl, rfl⟩
  · rw [if_neg hne] at hadd
    obtain rfl := Except.ok.inj hadd
    exact ⟨rfl, rfl⟩

/-- One more set is read, of the period that counts or of an earlier one. -/
theorem Counts.read (h : t.Counts c p vs) (hadd : t.add set p = .ok t')
    (hset : c.set? v q = some set) (hperiod : set.period = q) {f : List Clause × Nat}
    (hf : c.frozen? v q = some f) (hv : q = p → v ∉ vs) :
    t'.Counts c p (if q = p then insert v vs else vs) := by
  split
  · rename_i hqp
    subst hqp
    exact h.add hadd hset hperiod hf (hv rfl)
  · rename_i hqp
    obtain ⟨hsum, hcount⟩ := add_of_ne hadd (by rw [hperiod]; exact hqp)
    exact ⟨hsum.trans h.lengthSum_eq, hcount.trans h.candidates_eq⟩

end Tally

/-- A set that is held has not been read. -/
theorem Coordinator.Holds.notMem_readBy {c : Coordinator} {w : Worker} {offset q : Nat}
    (h : c.Holds w offset q) : w.neighbour offset ∉ c.readBy w.id q := by
  intro hmem
  have hlt := (Coordinator.mem_readBy.1 hmem).2.2
  rw [h.next_eq] at hlt
  exact lt_irrefl _ hlt

/-- What worker `w` has added up in a stage of a boundary, in either mode. -/
def Stage.Sums (c : Coordinator) (w : Worker) : Stage → Prop
  | .fetching _ t | .reading _ t _ | .averaging t =>
    t.Counts c (w.importPeriod c.margin) (c.readBy w.id (w.importPeriod c.margin))
  | .acknowledging offset t q =>
    t.Counts c (w.importPeriod c.margin)
      (if q = w.importPeriod c.margin then
        insert (w.neighbour offset) (c.readBy w.id (w.importPeriod c.margin))
      else c.readBy w.id (w.importPeriod c.margin))
  | .entering length =>
    c.margin ≤ w.period → ∃ used, c.Averages w.config w.id (w.importPeriod c.margin) length used
  | _ => True

variable {σ : Type}

/-- The length of a worker's period is a mean, and so is what follows from its sums. -/
structure Runner.Sums (c : Coordinator) (r : Runner σ) : Prop where
  average : c.margin < r.worker.period → ∃ used,
    c.Averages r.worker.config r.worker.id (r.worker.period - 1 - c.margin) r.worker.periodLength
      used
  counts : ∀ b, r.control = .boundary b → b.stage.Sums c r.worker

/-! ## What the steps of others leave alone -/

section Frame

variable {c c' : Coordinator} {j : Nat}

theorem Stage.Sums.frame {w : Worker} {stage : Stage} (h : stage.Sums c w) (heff : c.Effect j c')
    (hj : j < c.numWorkers) (hc : c.AllLogs) (hne : w.id ≠ j) (hw : w.numWorkers = c.numWorkers)
    (hle : ∀ v < c.numWorkers, (c.box v).next w.id ≤ (c.box v).completed)
    (hfits : stage.Fits c w) : stage.Sums c' w := by
  have hgrows := heff.allGrows hj hc
  cases stage with
  | fetching | reading | averaging =>
    unfold Stage.Sums
    rw [heff.margin_eq, heff.readBy_eq hj hc hne]
    exact Tally.Counts.congr h fun v hv => hgrows.candidate_eq_of_mem_readBy hc hle hv
  | acknowledging offset t q =>
    obtain ⟨-, -, hholds, hfrozen⟩ := hfits
    have hv : w.neighbour offset < c.numWorkers := hw ▸ hholds.neighbour_lt
    unfold Stage.Sums at h ⊢
    rw [heff.margin_eq, heff.readBy_eq hj hc hne]
    exact h.congr fun v hmem => hgrows.candidate_eq_of_mem_ite hc hle hv hfrozen hmem
  | entering length =>
    unfold Stage.Sums
    rw [heff.margin_eq]
    exact fun hm => (h hm).imp fun _ haverages => haverages.grows hgrows
  | _ => trivial

/-- The step of another worker changes nothing about what has been added up. -/
theorem Runner.Sums.frame {r : Runner σ} (h : r.Sums c) (heff : c.Effect j c')
    (hj : j < c.numWorkers) (hc : c.AllLogs) (hne : r.worker.id ≠ j)
    (hw : r.worker.numWorkers = c.numWorkers)
    (hle : ∀ v < c.numWorkers, (c.box v).next r.worker.id ≤ (c.box v).completed)
    (hfits : r.control.Fits c r.worker) : r.Sums c' where
  average := by
    rw [heff.margin_eq]
    exact fun hm => (h.average hm).imp fun _ haverages => haverages.grows (heff.allGrows hj hc)
  counts b hb := by
    rw [hb] at hfits
    exact (h.counts b hb).frame heff hj hc hne hw hle hfits.2.2

end Frame

/-! ## A runner's own step -/

namespace Runner

variable {c c' : Coordinator} {r r' : Runner σ} {events : List Event}

/-- When a worker has completed its set, it finds its own one of the period to import, with its
candidate. -/
theorem exists_own_set (hid : r.worker.id < c.numWorkers) (hc : c.AllLogs)
    (hmargin : c.margin ≤ r.worker.period)
    (hpast : (c.box r.worker.id).past.size = r.worker.period + 1) :
    ∃ set f, (c.box r.worker.id).lookup (r.worker.importPeriod c.margin) = some set ∧
      set.period = r.worker.importPeriod c.margin ∧ set.nextLength? = some f.2 ∧
      c.frozen? r.worker.id (r.worker.importPeriod c.margin) = some f := by
  have hlookup : (c.box r.worker.id).lookup (r.worker.importPeriod c.margin) =
      c.set? r.worker.id (r.worker.importPeriod c.margin) := by
    rw [Coordinator.set?_eq hid, (hc _ hid).lookup_own]
    unfold Worker.importPeriod
    omega
  have hfrozen : (c.frozen? r.worker.id (r.worker.importPeriod c.margin)).isSome := by
    rw [Coordinator.frozen?_eq hid, (hc _ hid).frozen?_isSome_iff, Mailbox.completed, hpast]
    unfold Worker.importPeriod
    omega
  obtain ⟨f, hf⟩ := Option.isSome_iff_exists.1 hfrozen
  have hn := Coordinator.nextLength?_of_frozen hf
  obtain ⟨set, hset, hn⟩ := Option.bind_eq_some_iff.1 hn
  rw [hlookup]
  exact ⟨set, f, hset, ((hc _ hid).set?_spec (by rw [← Coordinator.set?_eq hid, hset])).2, hn, hf⟩

/-- The length that follows from the candidates that have been read and from the worker's own. -/
theorem nextLength_of_counts (hid : r.worker.id < c.numWorkers) (hc : c.AllLogs)
    (hadaptive : r.worker.config.isAdaptive = true) (hmargin : c.margin ≤ r.worker.period)
    (hpast : (c.box r.worker.id).past.size = r.worker.period + 1) {t : Tally}
    (ht : t.Counts c (r.worker.importPeriod c.margin)
      (c.readBy r.worker.id (r.worker.importPeriod c.margin))) :
    r.worker.nextLength c t = Pace.clamp r.worker.config
      (c.mean (r.worker.importPeriod c.margin)
        (insert r.worker.id (c.readBy r.worker.id (r.worker.importPeriod c.margin)))) := by
  obtain ⟨set, f, hlookup, -, hn, hf⟩ := exists_own_set hid hc hmargin hpast
  have hself := Coordinator.self_notMem_readBy c r.worker.id (r.worker.importPeriod c.margin)
  unfold Worker.nextLength
  rw [if_pos hadaptive, hlookup, Option.bind_some, hn]
  dsimp only [Option.getD_some, Option.toList_some, List.length_singleton]
  rw [Pace.combine, if_neg (Nat.succ_ne_zero _), Coordinator.mean, Finset.sum_insert hself,
    Finset.card_insert_of_notMem hself, ht.lengthSum_eq, ht.candidates_eq,
    Coordinator.candidate_of_frozen hf, Nat.add_comm f.2]

/-- The candidates of a complete count: those that have been read, and the worker's own. -/
theorem averages_of_counts (hid : r.worker.id < c.numWorkers) (hc : c.AllLogs)
    (hle : ∀ v < c.numWorkers, (c.box v).next r.worker.id ≤ (c.box v).completed)
    (hadaptive : r.worker.config.isAdaptive = true) (hmargin : c.margin ≤ r.worker.period)
    (hpast : (c.box r.worker.id).past.size = r.worker.period + 1) {t : Tally}
    (ht : t.Counts c (r.worker.importPeriod c.margin)
      (c.readBy r.worker.id (r.worker.importPeriod c.margin))) :
    c.Averages r.worker.config r.worker.id (r.worker.importPeriod c.margin)
      (r.worker.nextLength c t)
      (insert r.worker.id (c.readBy r.worker.id (r.worker.importPeriod c.margin))) where
  mem := Finset.mem_insert_self _ _
  lt v hv := by
    rcases Finset.mem_insert.1 hv with rfl | hv
    · exact hid
    · exact (Coordinator.mem_readBy.1 hv).1
  frozen v hv := by
    rcases Finset.mem_insert.1 hv with rfl | hv
    · obtain ⟨-, f, -, -, -, hf⟩ := exists_own_set hid hc hmargin hpast
      rw [hf]
      rfl
    · exact Coordinator.frozen_of_mem_readBy hc hle hv
  length_eq := by
    rw [nextLength_of_counts hid hc hadaptive hmargin hpast ht, Pace.clamp_eq]

/-- At the beginning nothing has been read that counts, because the cursors trail the margin. -/
theorem Sums.advance (hid : r.worker.id < c.numWorkers)
    (hpast : (c.box r.worker.id).past.size = r.worker.period)
    (htrailing : ∀ v < c.numWorkers, v ≠ r.worker.id →
      (c.box v).next r.worker.id ≤ (c.box r.worker.id).past.size - c.margin)
    {w : Worker} (hq : r.worker.Quiet w) (n : Nat) :
    (if w.period < c.margin then Stage.entering w.periodLength else .fetching 1 {}).Sums
      (c.setBox r.worker.id ((c.box r.worker.id).advance n).2) w := by
  split
  · rename_i hp
    exact fun hm => absurd hp (not_lt.2 hm)
  · have hempty : c.readBy r.worker.id (r.worker.importPeriod c.margin) = ∅ := by
      refine Finset.eq_empty_of_forall_notMem fun v hv => ?_
      obtain ⟨hv, hvw, hlt⟩ := Coordinator.mem_readBy.1 hv
      have hle := htrailing v hv hvw
      unfold Worker.importPeriod at hlt
      omega
    have htarget : w.importPeriod c.margin = r.worker.importPeriod c.margin :=
      congrArg (· - c.margin) hq.period_eq
    show Tally.Counts {} _ (w.importPeriod c.margin)
      (Coordinator.readBy _ w.id (w.importPeriod c.margin))
    rw [hq.id_eq, htarget, Coordinator.readBy_setBox_self hid, hempty]
    exact .empty

/-- The candidate of the set that is read counts if the set is of the period in question. -/
theorem Sums.read (h : r.Sums c) (hc : c.AllLogs) (hw : r.worker.numWorkers = c.numWorkers)
    {b : Boundary} {offset q n : Nat} {t t' : Tally} {cs : List Clause}
    (hfits : r.control.Fits c r.worker) (hr : r.control = .boundary b)
    (hb : b.stage = .reading offset t q)
    (hf : c.frozen? (r.worker.neighbour offset) q = some (cs, n))
    (hadd : ∃ set, c.set? (r.worker.neighbour offset) q = some set ∧
      t.add set (r.worker.importPeriod c.margin) = .ok t') :
    (Stage.acknowledging offset t' q).Sums c r.worker := by
  obtain ⟨-, -, -, -, hholds⟩ := fits_boundary hfits hr hb
  have hcounts := h.counts b hr
  rw [hb] at hcounts
  obtain ⟨set, hset, hadd⟩ := hadd
  have hv : r.worker.neighbour offset < c.numWorkers := hw ▸ hholds.neighbour_lt
  have hperiod := ((hc _ hv).set?_spec (by rw [← Coordinator.set?_eq hv, hset])).2
  exact Tally.Counts.read hcounts hadd hset hperiod hf fun hq => hq ▸ hholds.notMem_readBy

/-- What has been counted is then acknowledged. -/
theorem Sums.acknowledge (h : r.Sums c) (hid : r.worker.id < c.numWorkers) (hc : c.AllLogs)
    (hw : r.worker.numWorkers = c.numWorkers)
    (hle : ∀ v < c.numWorkers, (c.box v).next r.worker.id ≤ (c.box v).completed)
    {b : Boundary} {offset q : Nat} {t : Tally}
    (hfits : r.control.Fits c r.worker) (hr : r.control = .boundary b)
    (hb : b.stage = .acknowledging offset t q)
    (hok : (c.acknowledge (r.worker.neighbour offset) r.worker.id q).1 = .ok ())
    (hgrows : c.Grows (c.acknowledge (r.worker.neighbour offset) r.worker.id q).2) :
    (Stage.fetching offset t).Sums
      (c.acknowledge (r.worker.neighbour offset) r.worker.id q).2 r.worker := by
  obtain ⟨-, -, -, -, hholds, hfrozen⟩ := fits_boundary hfits hr hb
  have hv : r.worker.neighbour offset < c.numWorkers := hw ▸ hholds.neighbour_lt
  have hne := Worker.neighbour_ne (by rw [hw]; exact hid) hholds.offset_pos hholds.offset_lt
  have hcounts := h.counts b hr
  rw [hb] at hcounts
  change t.Counts c _ (if q = _ then _ else _) at hcounts
  rcases acknowledge_eq hid hc hw hholds with ⟨-, f, hf⟩ | ⟨heq, -⟩
  · rw [hok] at hf
    cases hf
  rw [heq] at hgrows ⊢
  show Tally.Counts t _ (r.worker.importPeriod c.margin)
    (Coordinator.readBy _ _ (r.worker.importPeriod c.margin))
  rw [Coordinator.readBy_acknowledged hc hid hv hne hholds.next_eq hholds.period_le]
  exact hcounts.congr fun u hu => hgrows.candidate_eq_of_mem_ite hc hle hv hfrozen hu

/-- What a runner has added up after its own step. -/
theorem Sums.step (h : r.Sums c) (hstep : Step r c events r' c')
    (hid : r.worker.id < c.numWorkers) (hc : c.AllLogs)
    (hw : r.worker.numWorkers = c.numWorkers)
    (hle : ∀ v < c.numWorkers, (c.box v).next r.worker.id ≤ (c.box v).completed)
    (htrailing : ∀ v < c.numWorkers, v ≠ r.worker.id →
      (c.box v).next r.worker.id ≤ (c.box r.worker.id).past.size - c.margin)
    (hadaptive : r.worker.config.isAdaptive = true) (hfits : r.control.Fits c r.worker) :
    r'.Sums c' := by
  have heff := hstep.effect hid hc hw hfits
  have hgrows := heff.allGrows hid hc
  refine ⟨?_, fun b' hb' => ?_⟩
  · rw [heff.margin_eq, hstep.same.config_eq, hstep.same.id_eq]
    rcases hstep.length_cases with ⟨hperiod, hlength⟩ | ⟨b, length, hr, hb, hperiod, hlength⟩
    · rw [hperiod, hlength]
      exact fun hm => (h.average hm).imp fun _ haverages => haverages.grows hgrows
    · have hnext := h.counts b hr
      rw [hb] at hnext
      rw [hperiod, hlength]
      exact fun hm => (hnext (by omega)).imp fun _ haverages => haverages.grows hgrows
  · have hkeep {b : Boundary} {stage : Stage} (hr : r.control = .boundary b)
        (hb : b.stage = stage) : stage.Sums c r.worker := hb ▸ h.counts b hr
    cases hstep with
    | stay => exact h.counts b' hb'
    | arrive => cases hb'; trivial
    | pass => cases hb'; trivial
    | sort hr hb hq hstage =>
      cases hb'
      rcases hstage with rfl | ⟨d, rfl⟩ <;> trivial
    | publish => cases hb'; trivial
    | advance hr hb hq =>
      cases hb'
      exact Sums.advance hid (fits_boundary hfits hr hb).2.1 htrailing hq _
    | skip hr hb | fetch hr hb | survey hr hb | passOver hr hb =>
      cases hb'
      have hcounts := hkeep hr hb
      exact hcounts
    | read hr hb hf hadd =>
      cases hb'
      exact h.read hc hw hfits hr hb hf hadd
    | acknowledge hr hb hok =>
      cases hb'
      exact h.acknowledge hid hc hw hle hfits hr hb hok hgrows
    | average hr hb hq hlength =>
      cases hb'
      obtain ⟨-, hpast, -, hmargin⟩ := fits_boundary hfits hr hb
      have haverages := averages_of_counts hid hc hle hadaptive hmargin hpast (hkeep hr hb)
      rw [← hlength, ← hq.config_eq, ← hq.id_eq] at haverages
      intro _
      rw [show Worker.importPeriod _ c.margin = r.worker.importPeriod c.margin from
        congrArg (· - c.margin) hq.period_eq]
      exact ⟨_, haverages⟩
    | enter => cases hb'; trivial
    | decide => cases hb'; trivial
    | take hr hk => rcases hk with rfl | ⟨f, rfl⟩ <;> cases hb'
    | signOff hr _ hk => rcases hk with ⟨f, rfl⟩ | ⟨verdict, -, rfl⟩ <;> cases hb'
    | handIn hr hk => rcases hk with ⟨f, rfl⟩ | ⟨stats, -, rfl⟩ <;> cases hb'
    | _ => cases hb'

end Runner

/-! ## Whole exchanges -/

namespace Exchange

variable {config : Config} {x : Exchange σ}

/-- All workers have added up the right candidates after every schedule. -/
theorem Fresh.sums_follow (h : x.Fresh config) (hadaptive : config.isAdaptive = true)
    (E : Engine σ) (schedule : List Nat) {w : Nat} {r : Runner σ}
    (hr : (x.follow E schedule).runners[w]? = some r) :
    r.Sums (x.follow E schedule).shared.coordinator := by
  have hw := (h.standing.follow E schedule).lt_numWorkers hr
  obtain ⟨r₀, hr₀⟩ := h.standing.exists_runner hw
  have hle (t : List Nat) : ∀ v < (x.follow E t).shared.coordinator.numWorkers, ∀ i,
      ((x.follow E t).shared.coordinator.box v).next i ≤
        ((x.follow E t).shared.coordinator.box v).completed := by
    intro v hv
    rw [(h.standing.follow E t).numWorkers_eq] at hv
    exact (h.standing.follow E t).next_le v hv
  obtain ⟨q, hq, hsums⟩ := h.standing.runner_follow E hr₀ (P := fun _ c q _ => q.Sums c)
    (by
      refine ⟨fun hm => ?_, fun b hb => ?_⟩
      · rw [h.worker hr₀] at hm
        exact absurd hm (Nat.not_lt_zero _)
      · rw [h.control_eq w r₀ hr₀] at hb
        cases hb)
    (fun _ _ _ _ hsums => hsums)
    (fun t c' q q' new hq hsums hstep => by
      have hy := h.standing.follow E t
      obtain ⟨hid, -, hconfig, -, hfits⟩ := hy.runner w q hq
      have hlt := hy.lt_mailboxes hw
      refine hsums.step hstep (by rw [hid]; exact hlt) hy.logs (hy.worker_numWorkers_eq hq)
        (fun v hv => hle t v hv _) ?_ (by rw [hconfig]; exact hadaptive) hfits
      rw [hid]
      exact fun v hv hne => h.trailing_follow E t v hv w hlt hne)
    (fun t j c' q hq hsums hne hj heff => by
      have hy := h.standing.follow E t
      have hstands := hy.runner w q hq
      exact hsums.frame heff hj hy.logs (by rw [hstands.id_eq]; exact hne)
        (hy.worker_numWorkers_eq hq) (fun v hv => hle t v hv _) hstands.fits) schedule
  obtain rfl := Option.some.inj (hr.symm.trans hq)
  exact hsums

end Exchange

end ClauseExchange
