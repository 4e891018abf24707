/-
**The decision cache, one lock at a time.**

The two maps of the cache, the operations that take the lock (`insert`, `count`, `remove`, the three
snapshots and the lookup), and the audit rows that `flush` makes out of an entry that has left. A
hash map's iteration order is a `Lib.Plan`.

* `insert_eq`: an insertion is the entry of the new key after some entries have left, in the order
  they left.
-/

import Mathlib.Data.List.MinMax
import OpenBerat.Cookie
import OpenBerat.Lib.Tally
import OpenBerat.Miss

namespace OpenBerat

open Lib (Assoc Plan)

/-- `std::net::IpAddr`. -/
inductive IpAddr
  | v4 (bits : BitVec 32)
  | v6 (bits : BitVec 128)
  deriving DecidableEq

/-- Nanoseconds on the monotonic clock. -/
abbrev Instant := Nat

/-- `Ok(value) if !value.is_empty()` of a header value's text. -/
def HeaderText.headerString (http : HeaderText) (value : HeaderValue) : Option Str :=
  (http.toStr value).filter fun text => !text.isEmpty

/-- One summary row. -/
structure AuditEvent where
  applicationId : Option Uuid
  applicationSlug : Str
  actorSub : Str
  actorName : Option Str
  decision : Decision
  count : BitVec 32
  firstSeen : DateTime
  lastSeen : DateTime
  distinctPath : BitVec 32
  firstPath : Str
  srcIp : Option IpAddr
  requestId : Option Str
  deriving DecidableEq

namespace Cache

/-- Thirty seconds. -/
def ttl : Instant := 30 * 1000000000

/-- `CAPACITY`, the bound on the number of entries. -/
def capacity : Nat := 10000

/-- What one running total is kept for. -/
abbrev Outcome := Decision × Option IpAddr

/-- One outcome's running total inside a live entry. `count` is an `i32`. -/
structure Counters where
  count : BitVec 32
  firstSeen : DateTime
  lastSeen : DateTime
  firstPath : Str
  requestId : Option Str
  distinct : List UInt64

/-- `Entry`: the data of one session on one application, and what is counted under it. -/
structure Entry where
  sub : Str
  slug : Str
  cached : Cached
  inserted : Instant
  counters : Assoc Outcome Counters

/-- `Inner`: the entries, and their keys by subject. -/
structure Inner where
  entries : Assoc Key Entry
  bySub : Assoc Str (List Key)

/-- `Inner::default`. -/
def Inner.default : Inner :=
  ⟨∅, ∅⟩

/-! ### Under the lock -/

/-- `forget_sub`. -/
def forgetSub (bySub : Assoc Str (List Key)) (sub : Str) (key : Key) : Assoc Str (List Key) :=
  match bySub.lookup sub with
  | none => bySub
  | some keys =>
    let keys := keys.filter (· ≠ key)
    if keys = [] then bySub.erase sub else bySub.insert sub keys

/-- `entries.remove` and, if there was an entry, `forget_sub`. -/
def Inner.remove (inner : Inner) (key : Key) : Option (Entry × Inner) :=
  match inner.entries.lookup key with
  | none => none
  | some entry => some (entry, ⟨inner.entries.erase key, forgetSub inner.bySub entry.sub key⟩)

/-- `by_sub.entry(sub).or_default().insert(key)` and `entries.insert`. -/
def Inner.enter (inner : Inner) (key : Key) (entry : Entry) : Inner :=
  { entries := inner.entries.insert key entry
    bySub := inner.bySub.insert entry.sub
      (((inner.bySub.lookup entry.sub).getD []).insert key) }

/-- `entries.iter().min_by_key(inserted)`. -/
def oldest (plan : Plan Key) (entries : Assoc Key Entry) : Option Key :=
  (plan.arrange entries.keys).argmin fun key =>
    ((entries.lookup key).map (·.inserted)).getD 0

/-- The loop of `insert` that runs while the cache is over its bound; the bound on its rounds is the
number of entries. -/
def shrink (plan : Plan Key) : Nat → Inner → Inner × List Entry
  | 0, inner => (inner, [])
  | rounds + 1, inner =>
    if inner.entries.keys.length > capacity then
      match (oldest plan inner.entries).bind inner.remove with
      | none => (inner, [])
      | some (entry, inner) =>
        let (inner, leaving) := shrink plan rounds inner
        (inner, entry :: leaving)
    else (inner, [])

/-- `Cache::insert`, with the entries that leave because of it. -/
def insert (plan : Plan Key) (now : Instant) (inner : Inner) (key : Key) (sub : Str)
    (cached : Cached) : Inner × List Entry :=
  let (inner, replaced) := match inner.remove key with
    | none => (inner, [])
    | some (old, inner) => (inner, [old])
  let inner := inner.enter key
    { sub := sub
      slug := key.slug
      cached := cached
      inserted := now
      counters := ∅ }
  let (inner, victims) := shrink plan inner.entries.keys.length inner
  (inner, replaced ++ victims)

/-- `or_insert_with` of `count`. -/
def Counters.open (path : Str) (requestId : Option Str) (now : DateTime) : Counters :=
  { count := 0
    firstSeen := now
    lastSeen := now
    firstPath := path
    requestId := requestId
    distinct := [] }

/-- One more decision. A release build wraps the `i32`. -/
def Counters.fold (counters : Counters) (hash : UInt64) (now : DateTime) : Counters :=
  { counters with
    count := counters.count + 1
    lastSeen := now
    distinct := counters.distinct.insert hash }

/-- `Cache::count`; nothing where the key has no entry. -/
def count (pathHash : Str → UInt64) (inner : Inner) (key : Key) (decision : Decision) (path : Str)
    (srcIp : Option IpAddr) (requestId : Option Str) (now : DateTime) : Option Inner :=
  match inner.entries.lookup key with
  | none => none
  | some entry =>
    let counters := (entry.counters.lookup (decision, srcIp)).getD (.open path requestId now)
    let entry := { entry with
      counters := entry.counters.insert (decision, srcIp) (counters.fold (pathHash path) now) }
    some { inner with entries := inner.entries.insert key entry }

/-- The second half of `Cache::get`, under the lock. -/
def lookup (now : Instant) (inner : Inner) (key : Key) : Option Cached :=
  match inner.entries.lookup key with
  | none => none
  | some entry => if now - entry.inserted < ttl then some entry.cached else none

/-- What a walk over the cache collects before it evicts. -/
inductive Scope
  | expired
  | ofSub (sub : Str)
  | all
  deriving DecidableEq

/-- The snapshots of `sweep`, `drop_sub` and `flush_all`. -/
def snapshot (plan : Plan Key) (now : Instant) (inner : Inner) : Scope → List Key
  | .expired => (plan.arrange inner.entries.keys).filter fun key =>
      (inner.entries.lookup key).any fun entry => decide (ttl ≤ now - entry.inserted)
  | .ofSub sub => plan.arrange ((inner.bySub.lookup sub).getD [])
  | .all => plan.arrange inner.entries.keys

/-! ### Out of the lock -/

/-- The row `flush` makes of one running total. -/
def eventOf (http : HeaderText) (entry : Entry) (outcome : Outcome) (counters : Counters) :
    AuditEvent :=
  { applicationId := entry.cached.applicationId
    applicationSlug := entry.slug
    actorSub := entry.sub
    actorName := http.headerString entry.cached.identity.username
    decision := outcome.1
    count := counters.count
    firstSeen := counters.firstSeen
    lastSeen := counters.lastSeen
    distinctPath := BitVec.ofNat 32 counters.distinct.length
    firstPath := counters.firstPath
    srcIp := outcome.2
    requestId := counters.requestId }

/-- The rows of `flush`. -/
def flush (http : HeaderText) (entry : Entry) : List AuditEvent :=
  entry.counters.entries.map fun cell => eventOf http entry cell.1 cell.2

/-! ### Leaving -/

/-- Entries leave one after another. -/
inductive Leaves : Inner → List Entry → Inner → Prop
  | none (inner : Inner) : Leaves inner [] inner
  | one {inner middle last : Inner} {key : Key} {entry : Entry} {rest : List Entry} :
      inner.remove key = some (entry, middle) → Leaves middle rest last →
      Leaves inner (entry :: rest) last

theorem shrink_leaves (plan : Plan Key) (rounds : Nat) (inner : Inner) :
    Leaves inner (shrink plan rounds inner).2 (shrink plan rounds inner).1 := by
  induction rounds generalizing inner with
  | zero => exact .none inner
  | succ rounds ih =>
    unfold shrink
    by_cases full : inner.entries.keys.length > capacity
    · rw [if_pos full]
      cases removed : (oldest plan inner.entries).bind inner.remove with
      | none => exact .none inner
      | some pair =>
        obtain ⟨entry, middle⟩ := pair
        obtain ⟨key, _, gone⟩ := Option.bind_eq_some_iff.mp removed
        exact .one gone (ih middle)
    · rw [if_neg full]
      exact .none inner

/-- The entry an insertion makes. -/
def freshEntry (now : Instant) (key : Key) (sub : Str) (cached : Cached) : Entry :=
  { sub := sub
    slug := key.slug
    cached := cached
    inserted := now
    counters := ∅ }

theorem remove_eq_none {inner : Inner} {key : Key} :
    inner.remove key = none ↔ inner.entries.lookup key = none := by
  unfold Inner.remove
  constructor
  · intro removed
    split at removed
    · assumption
    · cases removed
  · intro absent
    rw [absent]

/-- Below the bound an insertion is one entry more. -/
theorem insert_of_room {plan : Plan Key} {now : Instant} {inner : Inner} {key : Key} {sub : Str}
    {cached : Cached} (absent : inner.entries.lookup key = none)
    (room : inner.entries.keys.length < capacity) :
    insert plan now inner key sub cached =
      (inner.enter key (freshEntry now key sub cached), []) := by
  have size : (inner.enter key (freshEntry now key sub cached)).entries.keys.length ≤ capacity := by
    show (inner.entries.insert key _).keys.length ≤ capacity
    rw [AList.keys_insert, List.length_cons]
    exact (Nat.succ_le_succ List.length_erase_le).trans room
  have still : ∀ rounds, shrink plan rounds (inner.enter key (freshEntry now key sub cached)) =
      (inner.enter key (freshEntry now key sub cached), []) := by
    intro rounds
    cases rounds with
    | zero => rfl
    | succ rounds =>
      unfold shrink
      rw [if_neg (not_lt.mpr size)]
  unfold insert
  rw [remove_eq_none.mpr absent]
  exact still _

theorem remove_eq_some {inner last : Inner} {key : Key} {entry : Entry} :
    inner.remove key = some (entry, last) ↔
      inner.entries.lookup key = some entry ∧
        last = ⟨inner.entries.erase key, forgetSub inner.bySub entry.sub key⟩ := by
  unfold Inner.remove
  constructor
  · intro removed
    split at removed
    · cases removed
    · rename_i found
      cases removed
      exact ⟨found, rfl⟩
  · rintro ⟨found, rfl⟩
    rw [found]

/-- **An insertion**: the old entry of the key leaves, the new one enters, the oldest leave. -/
theorem insert_eq (plan : Plan Key) (now : Instant) (inner : Inner) (key : Key) (sub : Str)
    (cached : Cached) :
    ∃ middle replaced victims, Leaves inner replaced middle ∧ middle.entries.lookup key = none ∧
      Leaves (middle.enter key (freshEntry now key sub cached)) victims
        (insert plan now inner key sub cached).1 ∧
      (insert plan now inner key sub cached).2 = replaced ++ victims := by
  unfold insert
  cases removed : inner.remove key with
  | none =>
    exact ⟨inner, [], _, .none inner, remove_eq_none.mp removed, shrink_leaves plan _ _, rfl⟩
  | some pair =>
    obtain ⟨old, middle⟩ := pair
    have absent : middle.entries.lookup key = none := by
      obtain ⟨_, rfl⟩ := remove_eq_some.mp removed
      exact AList.lookup_erase key inner.entries
    exact ⟨middle, [old], _, .one removed (.none middle), absent, shrink_leaves plan _ _, rfl⟩

end Cache

end OpenBerat
