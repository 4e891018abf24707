/-
**Reading the audit record.**

`list_audit` answers with one page, and a reader asks for the next with the instant and the id of
the last row received, until a page is short. Between the calls rows come in above that row and rows
are deleted anywhere. sqlx is known by its documentation: an instant is bound as microseconds and a
timestamp is read back as the instant it is bound as, or not at all.

* `beforeCursor_query`, `isPage_fetchAll`: what a page is taken from.
* `reading_of_run`: what a run of calls and writes has received.
* `record_read`: no row twice, none skipped, and every row in one of the windows that follow on each
  other.
-/

import Mathlib.Algebra.Group.Action.Defs
import Mathlib.Algebra.Order.BigOperators.Group.List
import Mathlib.Data.List.Sort
import Mathlib.Data.Prod.Lex
import Mathlib.Order.WithBot
import OpenBerat.Cache.Basic
import OpenBerat.Lib.Paging
import OpenBerat.Lib.Run
import OpenBerat.Retention

namespace OpenBerat.Audit

open Lib (Run Below IsPage Scanned exec guarded)
open Lib.Calendar (firstDay)
open Retention (Timestamp day)

/-! ### The record -/

/-- One `audit_event` row. Its instants are timestamps in the table and `DateTime<Utc>` in an
answer. -/
structure AuditRow (τ : Type) where
  id : Uuid
  ts : τ
  actorSub : Str
  actorName : Option Str
  applicationId : Option Uuid
  applicationSlug : Str
  decision : Str
  reason : Str
  count : BitVec 32
  firstSeen : τ
  lastSeen : τ
  distinctPath : BitVec 32
  firstPath : Str
  srcIp : Option IpAddr
  requestId : Option Str
  deriving DecidableEq

/-- The table, with its primary key. -/
structure Table where
  rows : List (AuditRow Timestamp)
  primaryKey : (rows.map fun row => (row.id, row.ts)).Nodup

/-- `insert into audit_event`, refused where the key is taken. -/
def Table.insert (table : Table) (row : AuditRow Timestamp) : Option Table :=
  if free : (row.id, row.ts) ∉ table.rows.map fun row => (row.id, row.ts) then
    some ⟨row :: table.rows, List.nodup_cons.mpr ⟨free, table.primaryKey⟩⟩
  else none

/-- `delete from audit_event` of one key. -/
def Table.delete (table : Table) (id : Uuid) (ts : Timestamp) : Table :=
  ⟨table.rows.filter fun row => (row.id, row.ts) ≠ (id, ts),
    table.primaryKey.sublist (List.filter_sublist.map _)⟩

/-- `-infinity` first and `infinity` last. -/
def rank : Timestamp → WithBot (WithTop Int)
  | .negInfinity => ⊥
  | .at micros => ((micros : WithTop Int) : WithBot (WithTop Int))
  | .infinity => ((⊤ : WithTop Int) : WithBot (WithTop Int))

theorem rank_injective : Function.Injective rank := by
  intro first second same
  cases first <;> cases second <;> simp_all [rank]

instance : LinearOrder Timestamp :=
  LinearOrder.lift' rank rank_injective

/-- What the record is ordered by: `ts`, and `id` bytewise. -/
def key (row : AuditRow Timestamp) : Timestamp ×ₗ Nat :=
  toLex (row.ts, row.id.toNat)

/-! ### The endpoint -/

/-- The decision that a filter may ask for. -/
inductive AuditDecision
  | allow
  | deny
  deriving DecidableEq

/-- The query string of `GET /api/admin/audit`. -/
structure AuditQuery where
  actor : Option Str
  app : Option Str
  decision : Option AuditDecision
  reason : Option Str
  since : Option DateTime
  «until» : Option DateTime
  beforeTs : Option DateTime
  beforeId : Option Uuid
  limit : Option Int

/-- What sqlx binds for an instant, and the instant it reads, where it reads one. -/
structure Sqlx where
  bind : DateTime → Int
  decode : Timestamp → Option DateTime

/-- A timestamp is in microseconds and an instant in nanoseconds. -/
structure Sqlx.Documented (sqlx : Sqlx) : Prop where
  ordered : ∀ first second, first ≤ second → sqlx.bind first ≤ sqlx.bind second
  whole : ∀ micros : Int, sqlx.bind (micros * 1000) = micros
  decoded : ∀ stamp instant, sqlx.decode stamp = some instant → stamp = .at (sqlx.bind instant)

section Endpoint

variable (sqlx : Sqlx)

/-- A row with its instants as sqlx reads them; nothing where chrono cannot hold one. -/
def AuditRow.decode (row : AuditRow Timestamp) : Option (AuditRow DateTime) := do
  let ts ← sqlx.decode row.ts
  let firstSeen ← sqlx.decode row.firstSeen
  let lastSeen ← sqlx.decode row.lastSeen
  some { row with ts := ts, firstSeen := firstSeen, lastSeen := lastSeen }

/-- A decision as the table has it. -/
def decisionText : AuditDecision → Str
  | .allow => "allow".toList
  | .deny => "deny".toList

/-- The condition of the query but for the cursor. -/
def filtered (q : AuditQuery) (row : AuditRow Timestamp) : Bool :=
  (q.actor.all fun actor => row.actorSub = actor ∨ row.actorName = some actor) &&
    (q.app.all fun app => row.applicationSlug = app) &&
    (q.decision.all fun decision => row.decision = decisionText decision) &&
    (q.reason.all fun reason => row.reason = reason) &&
    (q.since.all fun since => !row.ts.before (sqlx.bind since)) &&
    q.«until».all fun bound => row.ts.before (sqlx.bind bound)

/-- `$7::timestamptz is null or (ts, id) < ($7, $8::uuid)`. -/
def beforeCursor (q : AuditQuery) (row : AuditRow Timestamp) : Bool :=
  q.beforeTs.all fun beforeTs => row.ts.before (sqlx.bind beforeTs) ||
    (row.ts = .at (sqlx.bind beforeTs) && q.beforeId.any fun beforeId => row.id < beforeId)

/-- `i64::clamp`. -/
def clamp (low high value : Int) : Int :=
  if value < low then low else if high < value then high else value

/-- `order by ts desc, id desc limit $9`. The key of the table leaves no ties. -/
def fetchAll (q : AuditQuery) (rows : List (AuditRow Timestamp)) : List (AuditRow Timestamp) :=
  ((rows.filter fun row => filtered sqlx q row && beforeCursor sqlx q row).insertionSort
    fun first second => key second ≤ key first).take (clamp 1 1000 (q.limit.getD 100)).toNat

/-- What `list_audit` answers. -/
inductive ListResponse
  | badRequest (message : Str)
  | serviceUnavailable
  | rows (rows : List (AuditRow DateTime))

/-- `GET /api/admin/audit`; `answers` is whether Postgres does. -/
def listAudit (answers : Bool) (q : AuditQuery) (rows : List (AuditRow Timestamp)) : ListResponse :=
  if q.beforeTs.isSome ≠ q.beforeId.isSome then
    .badRequest "before_ts and before_id are one cursor: pass both or neither".toList
  else if ¬ answers then .serviceUnavailable
  else
    let found := fetchAll sqlx q rows
    if found.all fun row => (row.decode sqlx).isSome then
      .rows (found.filterMap (AuditRow.decode sqlx))
    else .serviceUnavailable

end Endpoint

/-! ### The reader -/

/-- `cursor`, the rows drawn, and whether a short page has hidden the button. -/
structure Reader where
  cursor : Option (DateTime × Uuid)
  rows : List (AuditRow DateTime)
  ended : Bool

/-- A reader that begins at the newest row. -/
def Reader.reload : Reader :=
  ⟨none, [], false⟩

/-- What is asked for: the filters, the cursor and the size of a page. -/
def Reader.query (filters : AuditQuery) (limit : Int) (reader : Reader) : AuditQuery :=
  { filters with
    beforeTs := reader.cursor.map Prod.fst
    beforeId := reader.cursor.map Prod.snd
    limit := some limit }

/-- `page`, when a page has come. -/
def Reader.page (limit : Int) (reader : Reader) (list : List (AuditRow DateTime)) : Reader :=
  { cursor := (list.getLast?.map fun last => (last.ts, last.id)).or reader.cursor
    rows := reader.rows ++ list
    ended := list.length < limit }

/-- The table, and the reader of its pages. -/
structure State where
  table : Table
  reader : Reader

/-- A call of the reader, or a write in between; `answers` is whether Postgres does. -/
inductive Label
  | call (answers : Bool)
  | insert (row : AuditRow Timestamp)
  | delete (id : Uuid) (ts : Timestamp)

/-- What the run shows: a page that came, and a row that has gone. -/
inductive Event
  | page (list : List (AuditRow DateTime))
  | deleted (id : Uuid) (ts : Timestamp)
  deriving DecidableEq

section Reading

variable (sqlx : Sqlx) (filters : AuditQuery) (limit : Int)

/-- A call that brings no page changes nothing here (`audit.js` hides the button then as well), and
after a short page there is none. -/
def step (state : State) : Label → Option (State × List Event)
  | .call answers =>
    if state.reader.ended then none
    else match listAudit sqlx answers (state.reader.query filters limit) state.table.rows with
      | .rows list => some ({ state with reader := state.reader.page limit list }, [.page list])
      | _ => some (state, [])
  | .insert row => (state.table.insert row).map fun table => ({ state with table := table }, [])
  | .delete id ts => some ({ state with table := state.table.delete id ts }, [.deleted id ts])

/-- A row comes in above the cursor. -/
def allowed (state : State) : Label → Prop
  | .insert row => ∃ cursor ∈ state.reader.cursor, .at (sqlx.bind cursor.1) < row.ts ∨
    .at (sqlx.bind cursor.1) = row.ts ∧ cursor.2 < row.id
  | _ => True

instance (state : State) (label : Label) : Decidable (allowed sqlx state label) :=
  match label with
  | .call _ => isTrue trivial
  | .insert _ => inferInstanceAs (Decidable (∃ cursor ∈ state.reader.cursor, _))
  | .delete .. => isTrue trivial

end Reading

/-- The pages of a run. -/
def pages (trace : List Event) : List (List (AuditRow DateTime)) :=
  trace.filterMap fun
    | .page list => some list
    | .deleted .. => none

/-- The filters on a window of time, and without one. -/
def window (filters : AuditQuery) (since bound : Option DateTime) : AuditQuery :=
  { filters with since := since, «until» := bound }

/-- Later, or at one instant with a higher id. -/
def Newer (first second : AuditRow DateTime) : Prop :=
  second.ts < first.ts ∨ second.ts = first.ts ∧ second.id < first.id

/-! ### The order -/

theorem before_iff {stamp : Timestamp} {bound : Int} :
    stamp.before bound = true ↔ stamp < .at bound := by
  show stamp.before bound = true ↔ rank stamp < rank (.at bound)
  cases stamp with
  | negInfinity => simp [rank, Timestamp.before]
  | «at» micros => simp [rank, Timestamp.before]
  | infinity => simp [rank, Timestamp.before]

theorem at_lt {first second : Int} : Timestamp.at first < .at second ↔ first < second := by
  rw [← before_iff]
  exact decide_eq_true_iff

theorem key_lt {first second : AuditRow Timestamp} : key first < key second ↔
    first.ts < second.ts ∨ first.ts = second.ts ∧ first.id < second.id :=
  Prod.Lex.lt_iff

/-- The keys of a table are different. -/
theorem Table.nodup (table : Table) : (table.rows.map key).Nodup := by
  have injective : Function.Injective fun name : Uuid × Timestamp =>
      (toLex (name.2, name.1.toNat) : Timestamp ×ₗ Nat) := by
    rintro ⟨id, ts⟩ ⟨other, stamp⟩ same
    obtain ⟨rfl, number⟩ := Prod.mk.inj (toLex.injective same)
    exact Prod.ext (BitVec.eq_of_toNat_eq number) rfl
  have named := table.primaryKey.map injective
  rwa [List.map_map] at named

/-! ### One page -/

section Page

variable {sqlx : Sqlx} {filters : AuditQuery} {limit : Int} {reader : Reader}
  {fetched : List (AuditRow Timestamp)}

theorem decode_eq_some {row : AuditRow Timestamp} {shown : AuditRow DateTime}
    (found : row.decode sqlx = some shown) :
    sqlx.decode row.ts = some shown.ts ∧ shown.id = row.id := by
  obtain ⟨ts, stamp, rest⟩ := Option.bind_eq_some_iff.mp found
  obtain ⟨firstSeen, _, rest⟩ := Option.bind_eq_some_iff.mp rest
  obtain ⟨lastSeen, _, same⟩ := Option.bind_eq_some_iff.mp rest
  obtain rfl := Option.some.inj same
  exact ⟨stamp, rfl⟩

/-- Rows that are newer in the table are newer as they are shown. -/
theorem newer_of_key_lt (documented : sqlx.Documented) {first second : AuditRow Timestamp}
    {shown other : AuditRow DateTime} (below : key second < key first)
    (found : first.decode sqlx = some shown) (also : second.decode sqlx = some other) :
    Newer shown other := by
  obtain ⟨stamp, id⟩ := decode_eq_some found
  obtain ⟨stamp', id'⟩ := decode_eq_some also
  rcases key_lt.mp below with earlier | ⟨same, lower⟩
  · rw [documented.decoded _ _ stamp, documented.decoded _ _ stamp', at_lt] at earlier
    refine Or.inl (lt_of_not_ge fun later => ?_)
    exact absurd earlier (not_lt.mpr (documented.ordered _ _ later))
  · rw [same, stamp] at stamp'
    exact Or.inr ⟨(Option.some.inj stamp').symm, by rwa [id, id']⟩

/-- The cursor is the key of the last row fetched. -/
theorem cursor_eq {rows : List (AuditRow DateTime)}
    (decoded : ∀ row ∈ fetched, (row.decode sqlx).isSome = true)
    (same : rows = fetched.filterMap (AuditRow.decode sqlx)) :
    (fetched = [] ∧ rows = []) ∨ ∃ last shown, fetched.getLast? = some last ∧
      rows.getLast? = some shown ∧ last.decode sqlx = some shown := by
  rcases List.eq_nil_or_concat fetched with rfl | ⟨front, last, rfl⟩
  · exact Or.inl ⟨rfl, same⟩
  · rw [List.concat_eq_append] at decoded same ⊢
    obtain ⟨shown, found⟩ := Option.isSome_iff_exists.mp (decoded last (by simp))
    refine Or.inr ⟨last, shown, List.getLast?_concat, ?_, found⟩
    rw [same, List.filterMap_append, List.filterMap_cons_some found]
    exact List.getLast?_concat

/-- What a page has to continue: the rows received are the rows fetched, and the cursor is the
last. -/
structure Follows (sqlx : Sqlx) (fetched : List (AuditRow Timestamp)) (reader : Reader) : Prop where
  decoded : ∀ row ∈ fetched, (row.decode sqlx).isSome = true
  rows : reader.rows = fetched.filterMap (AuditRow.decode sqlx)
  cursor : reader.cursor = reader.rows.getLast?.map fun last => (last.ts, last.id)

/-- The cursor of a reader is the key of the last row fetched. -/
theorem Follows.key_last (follows : Follows sqlx fetched reader) (documented : sqlx.Documented) :
    (fetched.getLast? = none ∧ reader.cursor = none) ∨ ∃ last ts, fetched.getLast? = some last ∧
      last.ts = .at (sqlx.bind ts) ∧ reader.cursor = some (ts, last.id) := by
  rcases cursor_eq follows.decoded follows.rows with
    ⟨rfl, none⟩ | ⟨last, shown, found, drawn, decode⟩
  · refine Or.inl ⟨rfl, ?_⟩
    rw [follows.cursor, none]
    rfl
  · obtain ⟨stamp, id⟩ := decode_eq_some decode
    refine Or.inr ⟨last, shown.ts, found, documented.decoded _ _ stamp, ?_⟩
    rw [follows.cursor, drawn, ← id]
    rfl

/-- **The cursor's condition** picks the rows below the last one fetched. -/
theorem beforeCursor_query (follows : Follows sqlx fetched reader) (documented : sqlx.Documented)
    (row : AuditRow Timestamp) :
    beforeCursor sqlx (reader.query filters limit) row = true ↔ Below key fetched row := by
  unfold beforeCursor Below Reader.query
  rcases follows.key_last documented with ⟨none, start⟩ | ⟨last, ts, found, stamp, cursor⟩
  · rw [start, none]
    exact iff_of_true rfl fun _ absent => nomatch absent
  · rw [cursor, found]
    have single : (∀ other ∈ some last, key row < key other) ↔ key row < key last :=
      ⟨fun all => all last rfl, fun below other same => Option.some.inj same ▸ below⟩
    dsimp only [Option.map_some, Option.all_some, Option.any_some]
    rw [single, key_lt, Bool.or_eq_true, Bool.and_eq_true, before_iff, decide_eq_true_iff,
      decide_eq_true_iff, stamp]

theorem toNat_clamp (range : 1 ≤ limit ∧ limit ≤ 1000) : clamp 1 1000 limit = limit := by
  unfold clamp
  rw [if_neg (not_lt.mpr range.1), if_neg (not_lt.mpr range.2)]

/-- **What is fetched is a page.** -/
theorem isPage_fetchAll (follows : Follows sqlx fetched reader) (documented : sqlx.Documented)
    (range : 1 ≤ limit ∧ limit ≤ 1000) (table : Table) :
    IsPage key limit.toNat (table.rows.filter (filtered sqlx filters)) fetched
      (fetchAll sqlx (reader.query filters limit) table.rows) := by
  have size : clamp 1 1000 ((reader.query filters limit).limit.getD 100) = limit :=
    toNat_clamp range
  unfold fetchAll
  rw [size]
  refine Lib.isPage_take (fun row => ?_) (Lib.descending_of_pairwise ?_ ?_)
  · rw [List.mem_insertionSort, List.mem_filter, List.mem_filter, Bool.and_eq_true,
      beforeCursor_query follows documented, ← and_assoc]
    exact Iff.rfl
  · refine ((List.perm_insertionSort _ _).map key).nodup_iff.mpr ?_
    exact table.nodup.sublist (List.filter_sublist.map key)
  · exact List.pairwise_insertionSort _ _

/-- A page that comes is what was fetched, read row by row. -/
theorem listAudit_eq_rows {answers : Bool} {q : AuditQuery} {rows : List (AuditRow Timestamp)}
    {list : List (AuditRow DateTime)} (answered : listAudit sqlx answers q rows = .rows list) :
    (∀ row ∈ fetchAll sqlx q rows, (row.decode sqlx).isSome = true) ∧
      list = (fetchAll sqlx q rows).filterMap (AuditRow.decode sqlx) := by
  unfold listAudit at answered
  split_ifs at answered with half failed
  dsimp only at answered
  split_ifs at answered with all
  exact ⟨List.all_eq_true.mp all, (ListResponse.rows.inj answered).symm⟩

/-- A page more. -/
theorem Follows.page (follows : Follows sqlx fetched reader) {page : List (AuditRow Timestamp)}
    (decoded : ∀ row ∈ page, (row.decode sqlx).isSome = true) :
    Follows sqlx (fetched ++ page)
      (reader.page limit (page.filterMap (AuditRow.decode sqlx))) := by
  refine ⟨fun row member => ?_, ?_, ?_⟩
  · exact (List.mem_append.mp member).elim (follows.decoded row) (decoded row)
  · show reader.rows ++ _ = _
    rw [follows.rows, List.filterMap_append]
  · show Option.or _ reader.cursor = Option.map _ (List.getLast? (reader.rows ++ _))
    rw [follows.cursor, List.getLast?_append, Option.map_or]

end Page

/-! ### Runs -/

section Runs

variable {sqlx : Sqlx} {filters : AuditQuery} {limit : Int} {base : Table} {trace : List Event}
  {state : State} {fetched : List (AuditRow Timestamp)}

/-- What a run has established. -/
structure Reading (sqlx : Sqlx) (filters : AuditQuery) (limit : Int) (base : Table)
    (trace : List Event) (state : State) (fetched : List (AuditRow Timestamp)) : Prop where
  follows : Follows sqlx fetched state.reader
  scanned : Scanned key (base.rows.filter (filtered sqlx filters))
    (state.table.rows.filter (filtered sqlx filters))
    (fun row => .deleted row.id row.ts ∈ trace) fetched
  received : (pages trace).flatten = state.reader.rows
  full : state.reader.ended = false → ∀ list ∈ pages trace, limit ≤ list.length
  complete : state.reader.ended = true → ∀ row ∈ base.rows.filter (filtered sqlx filters),
    .deleted row.id row.ts ∉ trace → row ∈ fetched

theorem pages_append (first second : List Event) :
    pages (first ++ second) = pages first ++ pages second :=
  List.filterMap_append

/-- A write: pages stay as they are. -/
theorem Reading.write (reading : Reading sqlx filters limit base trace state fetched)
    {table : Table} {out : List Event} (silent : pages out = [])
    (fresh : ∀ row ∈ table.rows, row ∈ state.table.rows ∨ ¬ Below key fetched row)
    (lost : ∀ row ∈ state.table.rows, .deleted row.id row.ts ∉ out → row ∈ table.rows) :
    Reading sqlx filters limit base (trace ++ out) { state with table := table } fetched := by
  have same : pages (trace ++ out) = pages trace := by
    rw [pages_append, silent, List.append_nil]
  refine ⟨reading.follows, ?_, same ▸ reading.received, same ▸ reading.full,
    fun ended row member stays => reading.complete ended row member fun before =>
      stays (List.mem_append_left _ before)⟩
  refine reading.scanned.write (fun row member => ?_) (fun row member stays => ?_)
    fun row before => List.mem_append_left _ before
  · obtain ⟨listed, passes⟩ := List.mem_filter.mp member
    exact (fresh row listed).imp_left fun old => List.mem_filter.mpr ⟨old, passes⟩
  · obtain ⟨listed, passes⟩ := List.mem_filter.mp member
    exact List.mem_filter.mpr
      ⟨lost row listed fun gone => stays (List.mem_append_right _ gone), passes⟩

theorem Reading.page (reading : Reading sqlx filters limit base trace state fetched)
    (documented : sqlx.Documented) (range : 1 ≤ limit ∧ limit ≤ 1000)
    (going : state.reader.ended = false) {answers : Bool} {list : List (AuditRow DateTime)}
    (answered : listAudit sqlx answers (state.reader.query filters limit) state.table.rows =
      .rows list) :
    ∃ page, Reading sqlx filters limit base (trace ++ [.page list])
      { state with reader := state.reader.page limit list } (fetched ++ page) := by
  obtain ⟨decoded, rfl⟩ := listAudit_eq_rows answered
  have isPage := @isPage_fetchAll _ filters _ _ _ reading.follows documented range state.table
  generalize fetchAll sqlx (state.reader.query filters limit) state.table.rows = page at *
  have size : (page.filterMap (AuditRow.decode sqlx)).length = page.length :=
    List.filterMap_length_eq_length.mpr decoded
  have scanned : Scanned key (base.rows.filter (filtered sqlx filters))
      (state.table.rows.filter (filtered sqlx filters))
      (fun row => .deleted row.id row.ts ∈
        trace ++ [.page (page.filterMap (AuditRow.decode sqlx))]) fetched :=
    reading.scanned.write (fun row member => Or.inl member) (fun row member _ => member)
      fun row before => List.mem_append_left _ before
  refine ⟨page, reading.follows.page decoded, scanned.receive isPage, ?_, fun more => ?_,
    fun ended row member stays => ?_⟩
  · rw [pages_append, List.flatten_append, reading.received]
    exact congrArg (state.reader.rows ++ ·) (List.append_nil _)
  · rw [pages_append]
    intro list member
    rcases List.mem_append.mp member with before | now
    · exact reading.full going list before
    · obtain rfl := List.mem_singleton.mp now
      exact not_lt.mp (of_decide_eq_false more)
  · refine scanned.complete isPage ?_ member stays
    have short : ((page.filterMap (AuditRow.decode sqlx)).length : Int) < limit :=
      of_decide_eq_true ended
    omega

/-- What a step can be. -/
theorem step_eq_some {label : Label} {next : State} {out : List Event}
    (stepped : step sqlx filters limit state label = some (next, out)) :
    (∃ answers, label = .call answers ∧ state.reader.ended = false ∧ (next = state ∧ out = [] ∨
      ∃ list, listAudit sqlx answers (state.reader.query filters limit) state.table.rows =
        .rows list ∧
        next = { state with reader := state.reader.page limit list } ∧ out = [.page list])) ∨
    (∃ row table, label = .insert row ∧ state.table.insert row = some table ∧
      next = { state with table := table } ∧ out = []) ∨
    ∃ id ts, label = .delete id ts ∧ next = { state with table := state.table.delete id ts } ∧
      out = [.deleted id ts] := by
  cases label with
  | call answers =>
    refine Or.inl ⟨answers, rfl, ?_⟩
    cases ended : state.reader.ended with
    | true =>
      unfold step at stepped
      dsimp only at stepped
      rw [ended] at stepped
      cases stepped
    | false =>
      unfold step at stepped
      dsimp only at stepped
      rw [ended, if_neg Bool.false_ne_true] at stepped
      refine ⟨rfl, ?_⟩
      cases answered :
          listAudit sqlx answers (state.reader.query filters limit) state.table.rows with
      | badRequest message =>
        rw [answered] at stepped
        cases stepped
        exact Or.inl ⟨rfl, rfl⟩
      | serviceUnavailable =>
        rw [answered] at stepped
        cases stepped
        exact Or.inl ⟨rfl, rfl⟩
      | rows list =>
        rw [answered] at stepped
        cases stepped
        exact Or.inr ⟨list, rfl, rfl, rfl⟩
  | insert row =>
    obtain ⟨table, inserted, same⟩ := Option.map_eq_some_iff.mp stepped
    cases same
    exact Or.inr (Or.inl ⟨row, table, rfl, inserted, rfl, rfl⟩)
  | delete id ts =>
    cases stepped
    exact Or.inr (Or.inr ⟨id, ts, rfl, rfl, rfl⟩)

/-- **One step.** -/
theorem Reading.step (reading : Reading sqlx filters limit base trace state fetched)
    (documented : sqlx.Documented) (range : 1 ≤ limit ∧ limit ≤ 1000) {label : Label}
    (permitted : allowed sqlx state label) {next : State} {out : List Event}
    (stepped : step sqlx filters limit state label = some (next, out)) :
    ∃ fetched, Reading sqlx filters limit base (trace ++ out) next fetched := by
  rcases step_eq_some stepped with ⟨answers, rfl, going, ⟨rfl, rfl⟩ | ⟨list, answered, rfl, rfl⟩⟩ |
    ⟨row, table, rfl, inserted, rfl, rfl⟩ | ⟨id, ts, rfl, rfl, rfl⟩
  · rw [List.append_nil]
    exact ⟨fetched, reading⟩
  · obtain ⟨page, more⟩ := reading.page documented range going answered
    exact ⟨_, more⟩
  · obtain ⟨⟨ts, id⟩, cursor, above⟩ := permitted
    unfold Table.insert at inserted
    split_ifs at inserted with free
    obtain rfl := Option.some.inj inserted
    refine ⟨fetched, reading.write rfl (fun other member => ?_)
      fun other member _ => List.mem_cons_of_mem _ member⟩
    rcases List.mem_cons.mp member with rfl | old
    · refine Or.inr fun below => ?_
      rcases reading.follows.key_last documented with
        ⟨_, start⟩ | ⟨last, instant, found, stamp, shown⟩
      · rw [start] at cursor
        cases cursor
      · rw [shown] at cursor
        cases cursor
        rw [← stamp] at above
        exact lt_asymm (key_lt.mpr above) (below last found)
    · exact Or.inl old
  · refine ⟨fetched, reading.write rfl (fun other member => Or.inl (List.mem_of_mem_filter member))
      fun other member stays => ?_⟩
    refine List.mem_filter.mpr ⟨member, decide_eq_true fun same => stays ?_⟩
    obtain ⟨rfl, rfl⟩ := Prod.mk.inj same
    exact List.mem_singleton_self _

/-- **Every run of calls and writes.** -/
theorem reading_of_run (documented : sqlx.Documented) (range : 1 ≤ limit ∧ limit ≤ 1000)
    (run : Run (step sqlx filters limit) (allowed sqlx) ⟨base, .reload⟩ trace state) :
    ∃ fetched, Reading sqlx filters limit base trace state fetched := by
  refine @Run.invariant _ _ _ _ _ _ (fun trace state => ∃ fetched,
    Reading sqlx filters limit base trace state fetched) ⟨[], ?_⟩ ?_ _ _ run
  · refine ⟨⟨fun _ member => ?_, rfl, rfl⟩, Lib.scanned_start _ _, rfl, fun _ _ member => ?_,
      fun ended => ?_⟩
    · cases member
    · cases member
    · cases ended
  · rintro trace state label next out ⟨fetched, reading⟩ permitted stepped
    exact reading.step documented range permitted stepped

/-- The rows received, newest first. -/
theorem Reading.newer (reading : Reading sqlx filters limit base trace state fetched)
    (documented : sqlx.Documented) : (pages trace).flatten.Pairwise Newer := by
  rw [reading.received, reading.follows.rows, List.pairwise_filterMap]
  refine reading.scanned.descending.imp fun below shown found other also => ?_
  exact newer_of_key_lt documented below found also

/-- Full pages come to an end. -/
theorem Reading.length_le (reading : Reading sqlx filters limit base trace state fetched)
    (full : ∀ list ∈ pages trace, limit ≤ (list.length : Int)) :
    limit * (pages trace).length ≤ base.rows.length := by
  have rows : state.reader.rows.length ≤ base.rows.length := by
    rw [reading.follows.rows]
    exact (List.length_filterMap_le _ _).trans
      (reading.scanned.length_le.trans (List.length_filter_le _ _))
  have sizes : ∀ size ∈ (pages trace).map List.length, limit.toNat ≤ size := by
    intro size member
    obtain ⟨list, listed, rfl⟩ := List.mem_map.mp member
    have whole := full list listed
    omega
  have total := List.card_nsmul_le_sum _ _ sizes
  rw [List.length_map, smul_eq_mul, ← List.length_flatten, reading.received] at total
  by_cases positive : 0 ≤ limit
  · have counted : ((pages trace).length * limit.toNat : Nat) ≤ (base.rows.length : Int) := by
      exact_mod_cast total.trans rows
    rw [Int.mul_comm]
    rwa [Nat.cast_mul, Int.toNat_of_nonneg positive] at counted
  · exact (Int.mul_nonpos_of_nonpos_of_nonneg (by omega) (by omega)).trans (by omega)

end Runs

/-! ### Windows -/

/-- A window is the filters and its two bounds. -/
theorem filtered_window {sqlx : Sqlx} {filters : AuditQuery} {since bound : DateTime}
    {row : AuditRow Timestamp} :
    filtered sqlx (window filters (some since) (some bound)) row = true ↔
      filtered sqlx (window filters none none) row = true ∧
        ¬ row.ts < .at (sqlx.bind since) ∧ row.ts < .at (sqlx.bind bound) := by
  unfold filtered window
  simp only [Option.all_some, Option.all_none, Bool.and_true, Bool.and_eq_true,
    Bool.not_eq_eq_eq_not, Bool.not_true, ← before_iff, Bool.not_eq_true, and_assoc]

/-- **Windows that follow on each other.** -/
theorem existsUnique_filtered {sqlx : Sqlx} (documented : sqlx.Documented) {filters : AuditQuery}
    {instants : Nat → DateTime} {count : Nat}
    (increasing : ∀ index < count, instants index ≤ instants (index + 1))
    {row : AuditRow Timestamp} {micros : Int} (stamp : row.ts = .at micros)
    (passes : filtered sqlx (window filters none none) row = true)
    (first : instants 0 ≤ micros * 1000) (last : (micros + 1) * 1000 ≤ instants count) :
    ∃! index, index < count ∧ filtered sqlx
      (window filters (some (instants index)) (some (instants (index + 1)))) row = true := by
  have began := documented.ordered _ _ first
  have ends := documented.ordered _ _ last
  rw [documented.whole] at began ends
  have one := @Lib.existsUnique_window _ _ (fun index => sqlx.bind (instants index)) count
    (fun index inside => documented.ordered _ _ (increasing index inside)) micros began
    (Int.lt_of_add_one_le ends)
  simpa only [filtered_window, passes, true_and, stamp, at_lt, not_lt] using one

/-- **The audit record is read without a row twice and without a gap.** The column and what is bound
for an instant are in microseconds, so the windows are about rows whose whole microsecond is in the
range. -/
theorem record_read (sqlx : Sqlx) (documented : sqlx.Documented) (filters : AuditQuery) :
    (∀ limit : Int, 1 ≤ limit → limit ≤ 1000 →
      ∀ (table : Table) (trace : List Event) (state : State),
      Run (step sqlx filters limit) (allowed sqlx) ⟨table, .reload⟩ trace state →
        (pages trace).flatten.Pairwise Newer ∧ (pages trace).flatten.Nodup ∧
        ((∃ list ∈ pages trace, (list.length : Int) < limit) →
          ∀ row ∈ table.rows, filtered sqlx filters row = true → .deleted row.id row.ts ∉ trace →
            ∃ shown ∈ (pages trace).flatten, row.decode sqlx = some shown) ∧
        ((∀ list ∈ pages trace, ¬ (list.length : Int) < limit) →
          limit * (pages trace).length ≤ table.rows.length)) ∧
    ∀ (instants : Nat → DateTime) (count : Nat),
      (∀ index < count, instants index ≤ instants (index + 1)) →
        ∀ (row : AuditRow Timestamp) (micros : Int), row.ts = .at micros →
          filtered sqlx (window filters none none) row = true → instants 0 ≤ micros * 1000 →
            (micros + 1) * 1000 ≤ instants count → ∃! index, index < count ∧ filtered sqlx
              (window filters (some (instants index)) (some (instants (index + 1)))) row =
                true := by
  refine ⟨fun limit low high table trace state run => ?_, fun instants count increasing row micros
    stamp passes first last => existsUnique_filtered documented increasing stamp passes first last⟩
  obtain ⟨fetched, reading⟩ := reading_of_run documented ⟨low, high⟩ run
  have newer := reading.newer documented
  refine ⟨newer, newer.imp fun {first second} after same => ?_, ?_, fun full => ?_⟩
  · subst same
    rcases after with later | ⟨_, higher⟩
    · exact lt_irrefl _ later
    · exact BitVec.lt_irrefl _ higher
  · rintro ⟨list, listed, short⟩ row member passes stays
    have ended : state.reader.ended = true := by
      by_contra more
      exact absurd (reading.full (Bool.eq_false_iff.mpr more) list listed) (not_le.mpr short)
    have inside := reading.complete ended row (List.mem_filter.mpr ⟨member, passes⟩) stays
    obtain ⟨shown, found⟩ := Option.isSome_iff_exists.mp (reading.follows.decoded row inside)
    refine ⟨shown, ?_, found⟩
    rw [reading.received, reading.follows.rows]
    exact List.mem_filterMap.mpr ⟨row, inside, found⟩
  · exact reading.length_le fun list listed => not_lt.mp (full list listed)

/-! ### One afternoon -/

/-- `Encode` cuts off what is less than a microsecond, counted from the year 2000 on, and `Decode`
reads what chrono can hold. -/
def microseconds : Sqlx where
  bind instant := (instant - 946684800 * 1000000000).tdiv 1000 + 946684800 * 1000000
  decode
    | .at micros =>
      if firstDay (12 * -262143) * day ≤ micros * 1000 ∧
          micros * 1000 < firstDay (12 * 262143) * day then
        some (micros * 1000)
      else none
    | _ => none

theorem bind_whole (micros : Int) : microseconds.bind (micros * 1000) = micros := by
  have shifted :
      micros * 1000 - 946684800 * 1000000000 = (micros - 946684800 * 1000000) * 1000 := by
    omega
  show (micros * 1000 - 946684800 * 1000000000).tdiv 1000 + 946684800 * 1000000 = micros
  rw [shifted, Int.mul_tdiv_cancel _ (by decide)]
  omega

theorem documented_microseconds : microseconds.Documented where
  ordered first second below := by
    have shifted : first - 946684800 * 1000000000 ≤ second - 946684800 * 1000000000 :=
      Int.sub_le_sub_right below _
    exact Int.add_le_add_right (Int.tdiv_le_tdiv (by decide) shifted) _
  whole := bind_whole
  decoded stamp instant found := by
    cases stamp with
    | negInfinity => cases found
    | infinity => cases found
    | «at» micros =>
      obtain ⟨_, same⟩ := Option.ite_none_right_eq_some.mp found
      obtain rfl := Option.some.inj same
      exact congrArg Timestamp.at (bind_whole micros).symm

namespace Afternoon

/-- The first of September 2026, at noon and so many microseconds. -/
def noon (micros : Int) : Int :=
  1788264000 * 1000000 + micros

/-- A row so many microseconds after noon. -/
def row (id : Uuid) (micros : Int) : AuditRow Timestamp where
  id := id
  ts := .at (noon micros)
  actorSub := "sub-a".toList
  actorName := some "alice".toList
  applicationId := none
  applicationSlug := "wiki".toList
  decision := "allow".toList
  reason := "allowed".toList
  count := 1
  firstSeen := .at (noon micros)
  lastSeen := .at (noon micros)
  distinctPath := 1
  firstPath := "/".toList
  srcIp := none
  requestId := none

/-- A query without a filter. -/
def anything : AuditQuery :=
  ⟨none, none, none, none, none, none, none, none, none⟩

/-- Three rows of one instant, one later and one earlier. -/
def table : Table :=
  ⟨[row 1 5, row 2 5, row 3 5, row 4 6, row 5 1], by decide +kernel⟩

/-- Two to a page; a row comes in on top, one goes from the second page and one call fails. -/
def labels : List Label :=
  [.call true, .insert (row 6 9), .delete 2 (.at (noon 5)), .call false, .call true, .call true]

/-- What the reader receives. -/
def trace : List Event :=
  ((exec (guarded (step microseconds anything 2) (allowed microseconds))
    ⟨table, .reload⟩ labels).map
    Prod.snd).getD []

/-- Noon, and half a microsecond later. -/
def instants (index : Nat) : DateTime :=
  noon 0 * 1000 + 500 * index

/-- Noon, and every microsecond from then on. -/
def ticks (index : Nat) : DateTime :=
  noon index * 1000

end Afternoon

open Afternoon in
/-- **A row of noon is in no window** that ends half a microsecond after noon. -/
theorem missed_at_noon : microseconds.Documented ∧ instants 0 < instants 1 ∧
    (row 1 0).ts = .at (noon 0) ∧
    filtered microseconds (window anything none none) (row 1 0) = true ∧
    instants 0 ≤ noon 0 * 1000 ∧ noon 0 * 1000 < instants 1 ∧
    ¬ ∃ index < 1, filtered microseconds
      (window anything (some (instants index)) (some (instants (index + 1)))) (row 1 0) = true := by
  refine ⟨documented_microseconds, by decide +kernel, rfl, rfl, by decide +kernel,
    by decide +kernel, ?_⟩
  rintro ⟨index, inside, passes⟩
  obtain rfl : index = 0 := by omega
  exact absurd passes (by decide +kernel)

open Afternoon in
/-- The row deleted and the row that came in apart, the pages have what there was. -/
theorem record_read_afternoon : ((pages trace).flatten.map (·.id) = [4, 3, 1, 5]) ∧
    (∃ shown ∈ (pages trace).flatten, (row 5 1).decode microseconds = some shown) ∧
    ∃! index, index < 9 ∧ filtered microseconds
      (window anything (some (ticks index)) (some (ticks (index + 1)))) (row 5 1) = true := by
  have read := record_read microseconds documented_microseconds anything
  have executed : (exec (guarded (step microseconds anything 2) (allowed microseconds))
      ⟨table, .reload⟩ labels).map Prod.snd = some trace := by
    decide +kernel
  obtain ⟨state, run⟩ := Run.of_guarded executed
  refine ⟨by decide +kernel, ?_, ?_⟩
  · refine (read.1 2 (by decide) (by decide) table trace state run).2.2.1 ?_ _ ?_ rfl ?_
    · exact ⟨[], by decide +kernel, by decide⟩
    · decide +kernel
    · decide +kernel
  · refine read.2 ticks 9 (fun index _ => ?_) _ (noon 1) rfl rfl (by decide +kernel)
      (by decide +kernel)
    show noon index * 1000 ≤ noon (index + 1 : Nat) * 1000
    unfold noon
    omega

end OpenBerat.Audit
