import ClauseExchange.Proofs.Exchange.Launch
import ClauseExchange.Proofs.Mailbox.Uses

/-!
# Making a coordinator

A coordinator is made of tables whose sizes come from its user: the directory of mailboxes, and in
each mailbox the cursors and the first clause sets. Memory is asked for each of them, and an
`Allocator` may refuse it for any reason; it has to refuse a table that cannot be addressed.

The answer is the error of the first table that is refused (`Allocator.outcome`). Only one thing can
go wrong before memory is asked for: the number of the first clause sets is the margin and two, which
may be no word.

* `Coordinator.createWith_ample` says that `Coordinator.create` is the case of an allocator that
  refuses nothing else.
* `Coordinator.created_or_refused` says how every construction ends, and that nothing is counted out
  of range on what has been made.
* `Coordinator.construction_overflows` is about a configuration that passes its check.
-/

namespace ClauseExchange

/-- A table for which memory is asked. -/
structure Table where
  /-- The worker whose table it is, unless all workers share it. -/
  owner? : Option Nat
  /-- What the table holds. -/
  what : String
  /-- The number of entries. -/
  count : Nat
  /-- The size of an entry in bytes. -/
  entryBytes : Nat
  deriving DecidableEq

/-- What grants memory for tables or refuses it. -/
structure Allocator where
  /-- Whether memory is granted for a table. -/
  grants : Table → Bool
  /-- No memory is granted for a table that cannot be addressed. -/
  fits : ∀ t, grants t = true → t.count * t.entryBytes ≤ Mailbox.maxTableBytes

namespace Allocator

/-- The allocator that grants memory for all tables that can be addressed. -/
def ample : Allocator where
  grants t := t.count * t.entryBytes ≤ Mailbox.maxTableBytes
  fits _ h := of_decide_eq_true h

/-- Asks for the memory of a table. -/
def reserve (A : Allocator) (t : Table) : Except Failure Unit :=
  if A.grants t then .ok () else .error (.refused (.allocation t.what t.count))

/-- What comes of some tables in a row: the error of the first that is refused, or what is made of
them all. -/
def outcome {α : Type} (A : Allocator) (tables : List Table) (made : α) : Except Failure α :=
  match tables.find? (fun t => !A.grants t) with
  | some t => .error (.refused (.allocation t.what t.count))
  | none => .ok made

end Allocator

namespace Mailbox

/-- The cursors of a mailbox. -/
def cursorTable (numWorkers owner : Nat) : Table :=
  ⟨some owner, "mailbox cursors", numWorkers, entryBytes⟩

/-- The first clause sets of a mailbox. -/
def setTable (initial owner : Nat) : Table :=
  ⟨some owner, "period clause sets", initial, entryBytes⟩

/-- The tables of a mailbox. -/
def tables (numWorkers window owner : Nat) : List Table :=
  [cursorTable numWorkers owner, setTable (window + 2) owner]

/-- A mailbox with one open set, for period `0`, in memory that may be refused. -/
def createWith (A : Allocator) (owner numWorkers window : Nat) : Except Failure Mailbox := do
  A.reserve (cursorTable numWorkers owner)
  let initial ← (Word.add window 2).mapError .fault
  A.reserve (setTable initial owner)
  return .fresh owner numWorkers window

end Mailbox

namespace Coordinator

/-- The directory of mailboxes. -/
def directory (numWorkers : Nat) : Table :=
  ⟨none, "mailbox directory", numWorkers, mailboxBytes⟩

/-- The tables of a coordinator. -/
def tables (numWorkers margin : Nat) : List Table :=
  directory numWorkers :: (List.range numWorkers).flatMap (Mailbox.tables numWorkers margin)

/-- A coordinator with a fresh mailbox for every worker, in memory that may be refused. -/
def createWith (A : Allocator) (numWorkers margin periodLength : Nat) :
    Except Failure Coordinator := do
  if numWorkers = 0 then
    throw (.refused .noWorkers)
  A.reserve (directory numWorkers)
  let mailboxes ←
    (List.range numWorkers).mapM fun owner => Mailbox.createWith A owner numWorkers margin
  return { margin, periodLength, mailboxes := mailboxes.toArray }

/-- A coordinator in which nothing has happened. -/
def fresh (numWorkers margin periodLength : Nat) : Coordinator where
  margin := margin
  periodLength := periodLength
  mailboxes := ((List.range numWorkers).map fun owner => .fresh owner numWorkers margin).toArray

end Coordinator

/-! ## The first refusal -/

namespace Allocator

variable {α β : Type} {A : Allocator}

theorem outcome_cons (t : Table) (tables : List Table) (made : α) :
    A.outcome (t :: tables) made = A.reserve t >>= fun _ => A.outcome tables made := by
  unfold outcome reserve
  cases h : A.grants t with
  | true =>
    rw [List.find?_cons_of_neg (by simp [h])]
    rfl
  | false =>
    rw [List.find?_cons_of_pos (by simp [h])]
    rfl

theorem outcome_map (tables : List Table) (made : α) (f : α → β) :
    (A.outcome tables made >>= fun a => .ok (f a)) = A.outcome tables (f made) := by
  unfold outcome
  cases tables.find? (fun t => !A.grants t) <;> rfl

theorem outcome_append (tables later : List Table) (made : α) (f : α → β) :
    (A.outcome tables made >>= fun a => A.outcome later (f a)) =
      A.outcome (tables ++ later) (f made) := by
  unfold outcome
  rw [List.find?_append]
  cases tables.find? (fun t => !A.grants t) <;> rfl

theorem outcome_eq_ok_iff {tables : List Table} {made a : α} :
    A.outcome tables made = .ok a ↔ a = made ∧ ∀ t ∈ tables, A.grants t = true := by
  unfold outcome
  cases h : tables.find? (fun t => !A.grants t) with
  | none =>
    have hall := List.find?_eq_none.1 h
    constructor
    · intro hok
      exact ⟨(Except.ok.inj hok).symm, fun t ht => by simpa using hall t ht⟩
    · rintro ⟨rfl, -⟩
      rfl
  | some t =>
    have hrefused := List.find?_some h
    have hmem := List.mem_of_find?_eq_some h
    constructor
    · nofun
    · rintro ⟨-, hall⟩
      rw [hall t hmem] at hrefused
      cases hrefused

/-- Only a refusal keeps tables from being made. -/
theorem exists_of_outcome_eq_error {tables : List Table} {made : α} {e : Failure}
    (h : A.outcome tables made = .error e) :
    ∃ t ∈ tables, A.grants t = false ∧ e = .refused (.allocation t.what t.count) := by
  unfold outcome at h
  split at h
  · rename_i t ht
    have hrefused := List.find?_some ht
    exact ⟨t, List.mem_of_find?_eq_some ht, by simpa using hrefused, (Except.error.inj h).symm⟩
  · cases h

/-- When something else goes wrong after some tables, memory has been granted for them. -/
theorem outcome_bind_error_iff {tables : List Table} {made : α} {e e' : Failure}
    (he : ∀ what count, e' ≠ .refused (.allocation what count)) :
    (A.outcome tables made >>= fun _ => (.error e : Except Failure β)) = .error e' ↔
      e' = e ∧ ∀ t ∈ tables, A.grants t = true := by
  cases h : A.outcome tables made with
  | ok a =>
    have hgranted := (outcome_eq_ok_iff.1 h).2
    constructor
    · intro hfail
      exact ⟨(Except.error.inj hfail).symm, hgranted⟩
    · rintro ⟨rfl, -⟩
      rfl
  | error e'' =>
    obtain ⟨t, ht, hrefused, rfl⟩ := exists_of_outcome_eq_error h
    constructor
    · intro hfail
      exact absurd (Except.error.inj hfail).symm (he _ _)
    · rintro ⟨-, hgranted⟩
      rw [hgranted t ht] at hrefused
      cases hrefused

/-- What any allocator grants can be addressed. -/
theorem grants_ample {t : Table} (h : A.grants t = true) : ample.grants t = true :=
  decide_eq_true (A.fits t h)

theorem reserve_ample (owner? : Option Nat) (what : String) (count bytes : Nat) :
    ample.reserve ⟨owner?, what, count, bytes⟩ = Mailbox.reserve what count bytes := by
  unfold reserve Mailbox.reserve ample
  simp

end Allocator

/-! ## How a construction ends -/

namespace Mailbox

variable {A : Allocator} {owner numWorkers window : Nat}

theorem createWith_ample (owner numWorkers window : Nat) :
    createWith .ample owner numWorkers window = create owner numWorkers window := by
  unfold createWith create cursorTable setTable
  simp only [Allocator.reserve_ample]
  rfl

/-- A mailbox is made unless one of its tables is refused. -/
theorem createWith_eq_outcome (hwindow : window + 2 < Word.bound) :
    createWith A owner numWorkers window =
      A.outcome (tables numWorkers window owner) (fresh owner numWorkers window) := by
  unfold createWith tables
  rw [Word.add_eq_ok_iff.2 ⟨rfl, hwindow⟩, Allocator.outcome_cons, Allocator.outcome_cons]
  rfl

/-- If the number of the first sets is no word, no mailbox is made. -/
theorem createWith_of_bound_le (hwindow : Word.bound ≤ window + 2) :
    createWith A owner numWorkers window =
      A.reserve (cursorTable numWorkers owner) >>= fun _ => .error (.fault .overflow) := by
  unfold createWith
  rw [Word.add_eq_error_iff.2 ⟨rfl, hwindow⟩]
  rfl

theorem mapM_createWith (hwindow : window + 2 < Word.bound) (owners : List Nat) :
    (owners.mapM fun owner => createWith A owner numWorkers window) =
      A.outcome (owners.flatMap (tables numWorkers window))
        (owners.map fun owner => fresh owner numWorkers window) := by
  induction owners with
  | nil => rfl
  | cons owner owners ih =>
    have hcons (m : Mailbox) := A.outcome_map (owners.flatMap (tables numWorkers window))
      (owners.map fun owner => fresh owner numWorkers window) (m :: ·)
    rw [List.mapM_cons, createWith_eq_outcome hwindow, ih, List.flatMap_cons]
    refine .trans ?_ (A.outcome_append (tables numWorkers window owner) _ _
      (· :: owners.map fun owner => fresh owner numWorkers window))
    exact congrArg (A.outcome (tables numWorkers window owner) _ >>= ·) (funext hcons)

end Mailbox

namespace Coordinator

variable {A : Allocator} {numWorkers margin periodLength : Nat} {c : Coordinator}

/-- An allocator that refuses only what cannot be addressed. -/
theorem createWith_ample (numWorkers margin periodLength : Nat) :
    createWith .ample numWorkers margin periodLength = create numWorkers margin periodLength := by
  unfold createWith create directory
  simp only [Allocator.reserve_ample, Mailbox.createWith_ample]

/-- A coordinator is made unless one of its tables is refused. -/
theorem createWith_eq_outcome (hworkers : 0 < numWorkers) (hmargin : margin + 2 < Word.bound) :
    createWith A numWorkers margin periodLength =
      A.outcome (tables numWorkers margin) (fresh numWorkers margin periodLength) := by
  unfold createWith tables
  rw [if_neg hworkers.ne', Mailbox.mapM_createWith hmargin, A.outcome_cons]
  refine congrArg (A.reserve (directory numWorkers) >>= ·) (funext fun _ => ?_)
  exact A.outcome_map _ _ fun boxes : List Mailbox =>
    ({ margin, periodLength, mailboxes := boxes.toArray } : Coordinator)

/-- If the number of the first sets is no word, the first mailbox is not made. -/
theorem createWith_of_bound_le (hworkers : 0 < numWorkers) (hmargin : Word.bound ≤ margin + 2) :
    createWith A numWorkers margin periodLength =
      A.outcome [directory numWorkers, Mailbox.cursorTable numWorkers 0] () >>= fun _ =>
        .error (.fault .overflow) := by
  obtain ⟨n, rfl⟩ := Nat.exists_eq_add_one_of_ne_zero hworkers.ne'
  unfold createWith
  rw [if_neg hworkers.ne', List.range_succ_eq_map, List.mapM_cons,
    Mailbox.createWith_of_bound_le hmargin]
  simp only [A.outcome_cons, bind_assoc]
  rfl

theorem createWith_eq_noWorkers_iff :
    createWith A numWorkers margin periodLength = .error (.refused .noWorkers) ↔
      numWorkers = 0 := by
  constructor
  · intro h
    by_contra hworkers
    rcases Nat.lt_or_ge (margin + 2) Word.bound with hmargin | hmargin
    · rw [createWith_eq_outcome (Nat.pos_of_ne_zero hworkers) hmargin] at h
      obtain ⟨t, -, -, ht⟩ := Allocator.exists_of_outcome_eq_error h
      cases ht
    · rw [createWith_of_bound_le (Nat.pos_of_ne_zero hworkers) hmargin,
        Allocator.outcome_bind_error_iff (by simp)] at h
      cases h.1
  · rintro rfl
    rfl

/-- A construction breaks a rule only by the number of the first sets, once it needs it. -/
theorem createWith_eq_fault_iff {f : Fault} :
    createWith A numWorkers margin periodLength = .error (.fault f) ↔
      f = .overflow ∧ 0 < numWorkers ∧ Word.bound ≤ margin + 2 ∧
        A.grants (directory numWorkers) = true ∧
        A.grants (Mailbox.cursorTable numWorkers 0) = true := by
  rcases Nat.eq_zero_or_pos numWorkers with rfl | hworkers
  · constructor
    · intro h
      cases h
    · rintro ⟨-, hpos, -⟩
      exact absurd hpos (Nat.lt_irrefl 0)
  rcases Nat.lt_or_ge (margin + 2) Word.bound with hmargin | hmargin
  · rw [createWith_eq_outcome hworkers hmargin]
    constructor
    · intro h
      obtain ⟨t, -, -, ht⟩ := Allocator.exists_of_outcome_eq_error h
      cases ht
    · rintro ⟨-, -, hbound, -⟩
      exact absurd hmargin (Nat.not_lt.2 hbound)
  · rw [createWith_of_bound_le hworkers hmargin, Allocator.outcome_bind_error_iff (by simp)]
    simp [hworkers, hmargin]

/-- What has been made is fresh, and memory was granted for all of it. -/
theorem eq_fresh_of_createWith (h : createWith A numWorkers margin periodLength = .ok c) :
    c = fresh numWorkers margin periodLength ∧ ∀ t ∈ tables numWorkers margin, A.grants t = true := by
  rcases Nat.eq_zero_or_pos numWorkers with rfl | hworkers
  · cases h
  · rcases Nat.lt_or_ge (margin + 2) Word.bound with hmargin | hmargin
    · rw [createWith_eq_outcome hworkers hmargin] at h
      exact Allocator.outcome_eq_ok_iff.1 h
    · rw [createWith_of_bound_le hworkers hmargin] at h
      obtain ⟨-, -, h⟩ := exists_of_bind_eq_ok h
      cases h

/-- A mailbox of what has been made could also be made alone. -/
theorem create_mailbox_of_createWith (h : createWith A numWorkers margin periodLength = .ok c)
    {w : Nat} {m : Mailbox} (hm : c.mailboxes[w]? = some m) :
    w < numWorkers ∧ Mailbox.create w numWorkers margin = .ok m := by
  obtain ⟨rfl, hgranted⟩ := eq_fresh_of_createWith h
  obtain ⟨hw, rfl⟩ : w < numWorkers ∧ m = .fresh w numWorkers margin := by
    simp only [fresh, List.getElem?_toArray, List.getElem?_map, Option.map_eq_some_iff] at hm
    obtain ⟨v, hv, rfl⟩ := hm
    obtain ⟨hlt, rfl⟩ := List.getElem?_eq_some_iff.1 hv
    rw [List.getElem_range]
    exact ⟨by simpa using hlt, rfl⟩
  have hgranted (t : Table) (ht : t ∈ Mailbox.tables numWorkers margin w) : A.grants t = true :=
    hgranted t (List.mem_cons_of_mem _ (List.mem_flatMap_of_mem (List.mem_range.2 hw) ht))
  have hmargin : margin + 2 < Word.bound := by
    have hfits := A.fits _ (hgranted (Mailbox.setTable (margin + 2) w) (by simp [Mailbox.tables]))
    simp only [Mailbox.setTable, Mailbox.entryBytes, Mailbox.maxTableBytes] at hfits
    rw [Word.bound]
    omega
  refine ⟨hw, ?_⟩
  rw [← Mailbox.createWith_ample, Mailbox.createWith_eq_outcome hmargin]
  exact Allocator.outcome_eq_ok_iff.2 ⟨rfl, fun t ht => Allocator.grants_ample (hgranted t ht)⟩

/-- **Every construction ends with a coordinator or with an error for its user**, unless the margin
and two is no word; and nothing is counted out of range on the mailboxes of a coordinator that has
been made, before one of them has been advanced `2 ^ 63` times (or used that often, for a cursor that
moves past a set of another worker). With an allocator that refuses only what cannot be addressed,
this is `create`. -/
theorem created_or_refused (A : Allocator) (numWorkers margin periodLength : Nat) :
    createWith .ample numWorkers margin periodLength = create numWorkers margin periodLength ∧
    (createWith A numWorkers margin periodLength = .error (.refused .noWorkers) ↔
      numWorkers = 0) ∧
    (0 < numWorkers → margin + 2 < Word.bound →
      createWith A numWorkers margin periodLength =
        A.outcome (tables numWorkers margin) (fresh numWorkers margin periodLength)) ∧
    (∀ f, createWith A numWorkers margin periodLength = .error (.fault f) ↔
      f = .overflow ∧ 0 < numWorkers ∧ Word.bound ≤ margin + 2 ∧
        A.grants (directory numWorkers) = true ∧
        A.grants (Mailbox.cursorTable numWorkers 0) = true) ∧
    ∀ c, createWith A numWorkers margin periodLength = .ok c →
      ∀ (w : Nat) (m : Mailbox) (uses : List Mailbox.Use), c.mailboxes[w]? = some m →
        uses.countP Mailbox.Use.isAdvance < 2 ^ 63 →
        (∀ u, (u.isForeign = true → uses.length < 2 ^ 63) →
          ((m.afterUses uses).use u).1 ≠ .error .overflow) ∧
        ((m.afterUses uses).isClosed = false → ∀ n,
          ((m.afterUses uses).advance n).1 = .ok ((m.afterUses uses).past.size + 1)) := by
  refine ⟨createWith_ample numWorkers margin periodLength, createWith_eq_noWorkers_iff,
    createWith_eq_outcome, fun f => createWith_eq_fault_iff, fun c hc w m uses hm hadvances => ?_⟩
  obtain ⟨hw, hcreate⟩ := create_mailbox_of_createWith hc hm
  refine ⟨Mailbox.use_ne_overflow hcreate hw hadvances, fun hopen n => ?_⟩
  exact Mailbox.advance_afterUses hcreate hw hadvances hopen n

/-- A coordinator for two workers is made, and the mailbox of the second can be advanced. -/
theorem created_or_refused_ample : ∃ c m, create 2 20 100 = .ok c ∧
    c.mailboxes[1]? = some m ∧ (m.advance 7).1 = .ok 1 := by
  obtain ⟨hrunning, -, hmargin, -, hmade⟩ := created_or_refused .ample 2 20 100
  have hc : createWith .ample 2 20 100 = .ok (fresh 2 20 100) := by
    rw [hmargin (by decide) (by decide)]
    decide +kernel
  exact ⟨_, _, hrunning ▸ hc, rfl, (hmade _ hc 1 (.fresh 1 2 20) [] rfl (by decide)).2 rfl 7⟩

/-- A configuration that passes its check can still lead to a fault. -/
theorem construction_overflows : ¬ ∀ config : Config, config.validate = .ok () → ∀ f,
    create config.numWorkers config.margin config.periodLength ≠ .error (.fault f) := by
  intro hsafe
  exact hsafe { numWorkers := 1, margin := 18446744073709551615, periodLength := 10 }
    (by decide +kernel) .overflow (by decide +kernel)

end Coordinator

end ClauseExchange
