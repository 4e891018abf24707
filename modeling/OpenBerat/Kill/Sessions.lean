/-
**The screen of live sessions.**

`list_sessions` puts beside every sub of the walk the newest row that the audit record has of it.
The walk hands its map over in an order of the map's own, and the record may not be readable.

* `find?_newest`: the row that `distinct on` keeps of a sub is a newest one.
* `rows_listed`: one row a sub, the most recently active first, whatever the order of the map.
* `sessions_listed`: what the screen says of who is signed in while others go on.
-/

import Mathlib.Data.Int.ConditionallyCompleteOrder
import OpenBerat.Audit
import OpenBerat.Kill.Live

namespace OpenBerat.Live

open Audit (AuditRow Sqlx)
open Lib (Plan Run distinctOn logged)
open Retention (Timestamp)

/-! ### The endpoint -/

/-- `actor_sub, actor_name, ts`. -/
abbrev Seen := Str × Option Str × DateTime

/-- `order by actor_sub, ts desc`. -/
def seenLe (collation : Collation) (first second : AuditRow Timestamp) : Bool :=
  if first.actorSub = second.actorSub then second.ts ≤ first.ts
  else collation.le first.actorSub second.actorSub

/-- `select distinct on (actor_sub)`. -/
def newest (collation : Collation) (plan : Plan (AuditRow Timestamp)) (subs : List Str)
    (rows : List (AuditRow Timestamp)) : List (AuditRow Timestamp) :=
  distinctOn (·.actorSub)
    ((plan.arrange (rows.filter fun row => subs.contains row.actorSub)).mergeSort
      (seenLe collation))

/-- A row as it is read. -/
def seenOf (sqlx : Sqlx) (row : AuditRow Timestamp) : Option Seen :=
  (sqlx.decode row.ts).map fun ts => (row.actorSub, row.actorName, ts)

/-- A row of the screen. -/
structure LiveSession where
  sub : Str
  sessions : Nat
  lastSeenAs : Option Str
  lastActivity : Option DateTime
  deriving DecidableEq

/-- The row of a sub, with the newest that the record says of it. -/
def liveSession (seen : List Seen) (entry : Str × Nat) : LiveSession :=
  let found := seen.find? fun row => row.1 = entry.1
  { sub := entry.1
    sessions := entry.2
    lastSeenAs := found.bind fun row => row.2.1
    lastActivity := found.map fun row => row.2.2 }

/-- `last_activity` backwards, where `None` is the least, and then `sub`. -/
def activityKey (row : LiveSession) : (WithBot DateTime)ᵒᵈ ×ₗ Str :=
  toLex (OrderDual.toDual (row.lastActivity : WithBot DateTime), row.sub)

/-- The order of the rows. -/
def activityLe (first second : LiveSession) : Bool :=
  activityKey first ≤ activityKey second

/-- What `list_sessions` answers. -/
inductive SessionsResponse
  | serviceUnavailable
  | rows (rows : List LiveSession)
  deriving DecidableEq

section Endpoint

variable (sqlx : Sqlx) (collation : Collation) (plan : Plan (AuditRow Timestamp))

/-- What the record says of the subs, nothing where the query fails; `answers` is whether Postgres
does. -/
def seenRows (answers : Bool) (subs : List Str) (rows : List (AuditRow Timestamp)) : List Seen :=
  let found := newest collation plan subs rows
  if answers = true ∧ found.all fun row => (sqlx.decode row.ts).isSome then
    found.filterMap (seenOf sqlx)
  else []

/-- `GET /api/admin/sessions`; `live` is what the walk has come to. -/
def listSessions (answers : Bool) (live : Option (List (Str × Nat)))
    (rows : List (AuditRow Timestamp)) : SessionsResponse :=
  match live with
  | none => .serviceUnavailable
  | some live =>
    let seen := seenRows sqlx collation plan answers (live.map Prod.fst) rows
    .rows ((live.map (liveSession seen)).mergeSort activityLe)

end Endpoint

/-! ### The orders -/

section Orders

variable {collation : Collation}

theorem seenLe_total (first second : AuditRow Timestamp) :
    (seenLe collation first second || seenLe collation second first) = true := by
  unfold seenLe
  by_cases same : first.actorSub = second.actorSub
  · rw [if_pos same, if_pos same.symm, Bool.or_eq_true, decide_eq_true_iff, decide_eq_true_iff]
    exact le_total _ _
  · rw [if_neg same, if_neg fun other => same other.symm]
    exact collation.total _ _

theorem seenLe_trans (first second third : AuditRow Timestamp)
    (below : seenLe collation first second = true) (above : seenLe collation second third = true) :
    seenLe collation first third = true := by
  unfold seenLe at below above ⊢
  by_cases left : first.actorSub = second.actorSub
  · rw [if_pos left] at below
    by_cases right : second.actorSub = third.actorSub
    · rw [if_pos right] at above
      rw [if_pos (left.trans right)]
      exact decide_eq_true ((of_decide_eq_true above).trans (of_decide_eq_true below))
    · rw [if_neg right] at above
      rwa [if_neg (left ▸ right), left]
  · rw [if_neg left] at below
    by_cases right : second.actorSub = third.actorSub
    · rwa [if_neg (right ▸ left), ← right]
    · rw [if_neg right] at above
      by_cases around : first.actorSub = third.actorSub
      · rw [← around] at above
        exact absurd (collation.antisymm _ _ below above) left
      · rw [if_neg around]
        exact collation.trans _ _ _ below above

theorem activityLe_total (first second : LiveSession) :
    (activityLe first second || activityLe second first) = true := by
  unfold activityLe
  rw [Bool.or_eq_true, decide_eq_true_iff, decide_eq_true_iff]
  exact le_total _ _

theorem activityLe_trans (first second third : LiveSession) (below : activityLe first second = true)
    (above : activityLe second third = true) : activityLe first third = true :=
  decide_eq_true ((of_decide_eq_true below).trans (of_decide_eq_true above))

theorem sub_of_activityKey {first second : LiveSession}
    (same : activityKey first = activityKey second) :
    first.sub = second.sub :=
  congrArg Prod.snd (toLex.injective same)

end Orders

/-! ### The record -/

section Record

variable {sqlx : Sqlx} {collation : Collation} {plan : Plan (AuditRow Timestamp)} {subs : List Str}
  {rows : List (AuditRow Timestamp)} {sub : Str}

/-- The record has this of the sub, and nothing newer. -/
def Newest (rows : List (AuditRow Timestamp)) (sub : Str) (row : AuditRow Timestamp) : Prop :=
  row ∈ rows ∧ row.actorSub = sub ∧ ∀ other ∈ rows, other.actorSub = sub → other.ts ≤ row.ts

theorem mem_newest {row : AuditRow Timestamp} (member : row ∈ newest collation plan subs rows) :
    row ∈ rows := by
  have sorted := Lib.mem_of_mem_distinctOn member
  rw [List.mem_mergeSort, (plan.perm _).mem_iff] at sorted
  exact List.mem_of_mem_filter sorted

/-- **The row kept of a sub** is a newest one, and there is one if the record has any. -/
theorem find?_newest (asked : sub ∈ subs) :
    ((newest collation plan subs rows).find? (fun row => row.actorSub = sub) = none ∧
      ∀ row ∈ rows, row.actorSub ≠ sub) ∨
    ∃ row, (newest collation plan subs rows).find? (fun row => row.actorSub = sub) = some row ∧
      Newest rows sub row := by
  have inside : ∀ row,
    row ∈ (plan.arrange (rows.filter fun row => subs.contains row.actorSub)).mergeSort
      (seenLe collation) ↔ row ∈ rows ∧ row.actorSub ∈ subs := by
    intro row
    rw [List.mem_mergeSort, (plan.perm _).mem_iff, List.mem_filter, List.contains_iff_mem]
  unfold newest
  rw [Lib.find?_distinctOn]
  cases found : ((plan.arrange (rows.filter fun row => subs.contains row.actorSub)).mergeSort
      (seenLe collation)).find? fun row => row.actorSub = sub with
  | none =>
    refine Or.inl ⟨rfl, ?_⟩
    rintro row member rfl
    exact List.find?_eq_none.mp found row ((inside row).mpr ⟨member, asked⟩) (decide_eq_true rfl)
  | some row =>
    obtain ⟨passes, before, after, shape, fails⟩ := List.find?_eq_some_iff_append.mp found
    obtain rfl := of_decide_eq_true passes
    have member : row ∈ rows := ((inside row).mp (List.mem_of_find?_eq_some found)).1
    refine Or.inr ⟨row, rfl, member, rfl, fun other listed same => ?_⟩
    have sorted := List.pairwise_mergeSort (@seenLe_trans collation) seenLe_total
      (plan.arrange (rows.filter fun row => subs.contains row.actorSub))
    have place := (inside other).mpr ⟨listed, same ▸ asked⟩
    rw [shape] at sorted place
    -- A row of the sub does not stand before the first one.
    rcases List.mem_append.mp place with early | late
    · exact absurd (fails other early) (by rw [decide_eq_true same]; exact Bool.false_ne_true)
    · rcases List.mem_cons.mp late with rfl | behind
      · exact le_refl _
      · have order := (List.pairwise_cons.mp (List.pairwise_append.mp sorted).2.1).1 other behind
        unfold seenLe at order
        rw [if_pos same.symm] at order
        exact of_decide_eq_true order

/-- The record can be read. -/
def Reads (sqlx : Sqlx) (answers : Bool) (rows : List (AuditRow Timestamp)) : Prop :=
  answers = true ∧ ∀ row ∈ rows, (sqlx.decode row.ts).isSome = true

/-- What a row of the screen says of its sub. -/
def Tells (sqlx : Sqlx) (rows : List (AuditRow Timestamp)) (session : LiveSession) : Prop :=
  (session.lastActivity = none ∧ session.lastSeenAs = none ∧ ∀ row ∈ rows,
    row.actorSub ≠ session.sub) ∨
    ∃ row activity, Newest rows session.sub row ∧ sqlx.decode row.ts = some activity ∧
      session.lastActivity = some activity ∧ session.lastSeenAs = row.actorName

/-- The query's rows, as they are read. -/
theorem find?_filterMap {found : List (AuditRow Timestamp)}
    (decoded : ∀ row ∈ found, (sqlx.decode row.ts).isSome = true) :
    ((found.filterMap (seenOf sqlx)).find? fun row => row.1 = sub) =
      (found.find? fun row => row.actorSub = sub).bind (seenOf sqlx) := by
  induction found with
  | nil => rfl
  | cons row found ih =>
    obtain ⟨ts, read⟩ := Option.isSome_iff_exists.mp (decoded row List.mem_cons_self)
    have here : seenOf sqlx row = some (row.actorSub, row.actorName, ts) := by
      unfold seenOf
      rw [read]
      rfl
    rw [List.filterMap_cons_some here, List.find?_cons, List.find?_cons]
    by_cases same : row.actorSub = sub
    · dsimp only
      rw [decide_eq_true same]
      exact here.symm
    · dsimp only
      rw [decide_eq_false same]
      exact ih fun other member => decoded other (List.mem_cons_of_mem _ member)

/-- **What a row says** is what the record has. -/
theorem tells_of_reads {answers : Bool} {entry : Str × Nat} (asked : entry.1 ∈ subs)
    (reads : Reads sqlx answers rows) :
    Tells sqlx rows (liveSession (seenRows sqlx collation plan answers subs rows) entry) := by
  have decoded : ∀ row ∈ newest collation plan subs rows, (sqlx.decode row.ts).isSome = true :=
    fun row member => reads.2 row (mem_newest member)
  have seen : (seenRows sqlx collation plan answers subs rows).find? (fun row => row.1 = entry.1) =
      ((newest collation plan subs rows).find? fun row => row.actorSub = entry.1).bind
          (seenOf sqlx) := by
    unfold seenRows
    dsimp only
    rw [if_pos ⟨reads.1, List.all_eq_true.mpr decoded⟩]
    exact find?_filterMap decoded
  unfold liveSession
  dsimp only
  rw [seen]
  rcases @find?_newest collation plan subs rows entry.1 asked with
    ⟨none, absent⟩ | ⟨row, found, last⟩
  · rw [none]
    exact Or.inl ⟨rfl, rfl, absent⟩
  · obtain ⟨activity, read⟩ := Option.isSome_iff_exists.mp (reads.2 row last.1)
    rw [found]
    dsimp only [Option.bind_some, seenOf]
    rw [read]
    exact Or.inr ⟨row, activity, last, read, rfl, rfl⟩

end Record

/-! ### The screen -/

section Screen

variable {sqlx : Sqlx} {collation : Collation} {plan : Plan (AuditRow Timestamp)} {answers : Bool}
  {rows : List (AuditRow Timestamp)} {live found : List (Str × Nat)}

theorem seenRows_perm (arranged : live.Perm found) :
    seenRows sqlx collation plan answers (live.map Prod.fst) rows =
      seenRows sqlx collation plan answers (found.map Prod.fst) rows := by
  have asked : ∀ row : AuditRow Timestamp,
      (live.map Prod.fst).contains row.actorSub = (found.map Prod.fst).contains row.actorSub := by
    intro row
    rw [Bool.eq_iff_iff, List.contains_iff_mem, List.contains_iff_mem]
    exact (arranged.map Prod.fst).mem_iff
  unfold seenRows newest
  simp only [asked]

/-- Rows of different subs have different keys. -/
theorem eq_of_activityKey {list : List LiveSession} (once : (list.map (·.sub)).Nodup)
    {first second : LiveSession}
    (one : first ∈ list) (two : second ∈ list) (below : activityLe first second = true)
    (above : activityLe second first = true) : first = second := by
  have same := le_antisymm (of_decide_eq_true below) (of_decide_eq_true above)
  exact List.inj_on_of_nodup_map once one two (sub_of_activityKey same)

/-- **The screen**: one row a sub with what the walk has counted, the most recently active first and
those the record has never seen last, each with the newest that the record has of it; a record that
cannot be read costs the names alone. The order of the map does not matter. -/
theorem rows_listed (sqlx : Sqlx) (collation : Collation) (plan : Plan (AuditRow Timestamp))
    (answers : Bool) (rows : List (AuditRow Timestamp)) (once : (found.map Prod.fst).Nodup)
    (arranged : live.Perm found) :
    ∃ list, listSessions sqlx collation plan answers (some live) rows = .rows list ∧
      list.Pairwise (fun first second => activityKey first < activityKey second) ∧
      (list.map fun session => (session.sub, session.sessions)).Perm found ∧
      (Reads sqlx answers rows → ∀ session ∈ list, Tells sqlx rows session) ∧
      (answers = false →
        ∀ session ∈ list, session.lastSeenAs = none ∧ session.lastActivity = none) ∧
      ∀ other, other.Perm found →
      listSessions sqlx collation plan answers (some other) rows = .rows list := by
  have entries : ∀ seen (list : List (Str × Nat)),
      ((list.map (liveSession seen)).map fun session => (session.sub, session.sessions)) =
          list := by
    intro seen list
    rw [List.map_map]
    exact List.map_id list
  have subs : ∀ seen (list : List (Str × Nat)),
      (list.map (liveSession seen)).map (·.sub) = list.map Prod.fst := by
    intro seen list
    rw [List.map_map]
    rfl
  have unique : ∀ seen (list : List (Str × Nat)), list.Perm found →
      (((list.map (liveSession seen)).mergeSort activityLe).map (·.sub)).Nodup := by
    intro seen list perm
    rw [((List.mergeSort_perm _ _).map _).nodup_iff, subs, (perm.map Prod.fst).nodup_iff]
    exact once
  have sorted : ∀ seen (list : List (Str × Nat)),
      ((list.map (liveSession seen)).mergeSort activityLe).Pairwise fun first second =>
        activityLe first second :=
    fun seen list => List.pairwise_mergeSort activityLe_trans activityLe_total _
  refine ⟨_, rfl, ?_, ?_, fun reads session member => ?_, ?_, fun other perm => ?_⟩
  · have names :=
      unique (seenRows sqlx collation plan answers (live.map Prod.fst) rows) live arranged
    refine ((sorted _ live).and (List.pairwise_map.mp names)).imp fun both => ?_
    refine lt_of_le_of_ne (of_decide_eq_true both.1) fun same => both.2 (sub_of_activityKey same)
  · refine ((List.mergeSort_perm _ _).map _).trans ?_
    rw [entries]
    exact arranged
  · rw [List.mem_mergeSort] at member
    obtain ⟨entry, inside, rfl⟩ := List.mem_map.mp member
    exact tells_of_reads (List.mem_map_of_mem inside) reads
  · rintro rfl session member
    rw [List.mem_mergeSort] at member
    obtain ⟨entry, inside, rfl⟩ := List.mem_map.mp member
    exact ⟨rfl, rfl⟩
  · show SessionsResponse.rows _ = .rows _
    rw [seenRows_perm (perm.trans arranged.symm)]
    refine congrArg _ (List.Perm.eq_of_pairwise (fun first second one two => ?_) (sorted _ other)
      (sorted _ live) ?_)
    · refine eq_of_activityKey (unique _ live arranged) ?_ two
      rw [List.mem_mergeSort] at one ⊢
      exact ((perm.trans arranged.symm).map _).mem_iff.mp one
    · exact (List.mergeSort_perm _ _).trans
        (((perm.trans arranged.symm).map _).trans (List.mergeSort_perm _ _).symm)

/-- **Who is signed in.** Whatever other clients do to the index while it is walked: a sub with
sessions all along has a row with at least these, every row counts sessions that have been there at
some moment, and not none, and no sub has two rows. The rows are in order of activity and say what
the record has. -/
theorem sessions_listed (sqlx : Sqlx) (collation : Collation) (plan : Plan (AuditRow Timestamp))
    (answers : Bool)
    (rows : List (AuditRow Timestamp)) {start : Redis} {past : List Event} {state : State}
    (run : Run (logged step) (Contract start) ([], .init start) past (past, state))
    (done : state.stage = .returned) (arranged : live.Perm state.found) :
    ∃ list, listSessions sqlx collation plan answers (some live) rows = .rows list ∧
      (∀ sub sessions, Steady start past sub sessions →
        ∃ session ∈ list, session.sub = sub ∧ sessions.card ≤ session.sessions) ∧
      (∀ session ∈ list, 0 < session.sessions ∧ Counted start past session.sub session.sessions) ∧
      (list.map (·.sub)).Nodup ∧
      list.Pairwise (fun first second => activityKey first < activityKey second) ∧
      (Reads sqlx answers rows → ∀ session ∈ list, Tells sqlx rows session) ∧
      (answers = false →
        ∀ session ∈ list, session.lastSeenAs = none ∧ session.lastActivity = none) ∧
      ∀ other, other.Perm state.found →
        listSessions sqlx collation plan answers (some other) rows = .rows list := by
  obtain ⟨complete, counted, once⟩ := live_between start run done
  obtain ⟨list, answered, ordered, entries, tells, bare, same⟩ :=
    rows_listed sqlx collation plan answers rows once arranged
  refine ⟨list, answered, fun sub sessions steady => ?_, fun session member => ?_, ?_, ordered,
    tells, bare, same⟩
  · obtain ⟨alive, found, bound⟩ := complete sub sessions steady
    obtain ⟨session, member, entry⟩ := List.mem_map.mp (entries.mem_iff.mpr found)
    cases entry
    exact ⟨session, member, rfl, bound⟩
  · exact counted _ (entries.mem_iff.mp (List.mem_map_of_mem member))
  · have names := (entries.map Prod.fst).nodup_iff.mpr once
    rwa [List.map_map] at names

end Screen

open Signed in
theorem sessions_listed_signed : ∃ list,
    listSessions Audit.microseconds .codePoint (.table _) true
      (some [(sub, 1)]) Audit.Afternoon.table.rows =
      .rows list ∧ (∃ session ∈ list, session.sub = sub ∧ 1 ≤ session.sessions) ∧
        (list.map (·.sub)).Nodup := by
  obtain ⟨list, answered, complete, _, names, _⟩ :=
    sessions_listed Audit.microseconds .codePoint (.table _) true
    Audit.Afternoon.table.rows run rfl (.refl _)
  exact ⟨list, answered, complete sub {session} steady, names⟩

end OpenBerat.Live
