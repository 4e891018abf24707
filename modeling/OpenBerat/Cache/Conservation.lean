/-
**No decision leaves the books.**

An account assigns every decision taken to one place: a counter of a live entry, a row made out and
not yet handed over, or a row handed to `Audit::record`. The account is kept by every step,
whichever road an entry leaves by.

* `Summary`: a counter is the fold of the decisions in its cell, in the order they were taken.
* `Balanced.leaves`, `Balanced.enter`, `Balanced.count`, `Balanced.own`, `Balanced.record`: what
  each step does to the account.
* `audit_conserved`: the account of a whole run.
* `count_wraps`: 2³¹ decisions in one counter make a row with a negative count.
-/

import Mathlib.Algebra.Group.Nat.Defs
import OpenBerat.Cache.Machine

namespace OpenBerat.Cache

open Lib (Assoc Plan Run exec guarded total)

section Books

variable (http : HeaderText) (pathHash : Str → UInt64)

/-! ### Counters and the decisions folded into them -/

/-- The counter that a cell of decisions makes. -/
def summary : List Taken → Option Counters
  | [] => none
  | first :: rest =>
    some ((first :: rest).foldl
      (fun counters taken => counters.fold (pathHash taken.path) taken.seen)
      (.open first.path first.requestId first.seen))

variable {pathHash}

theorem summary_eq_none {cell : List Taken} : summary pathHash cell = none ↔ cell = [] := by
  cases cell with
  | nil => exact iff_of_true rfl rfl
  | cons first rest => exact iff_of_false (fun same => by cases same) (fun same => by cases same)

/-- One decision more in the cell is one fold more of the counter. -/
theorem summary_append (cell : List Taken) (taken : Taken) :
    summary pathHash (cell ++ [taken]) =
      some (((summary pathHash cell).getD (.open taken.path taken.requestId taken.seen)).fold
        (pathHash taken.path) taken.seen) := by
  cases cell with
  | nil => rfl
  | cons first rest =>
    show some ((first :: (rest ++ [taken])).foldl _ _) = _
    rw [← List.cons_append, List.foldl_append]
    rfl

/-- What a row says of the decisions folded into it. -/
structure Accounts (cell : List Taken) (event : AuditEvent) : Prop where
  counted : event.count.toInt = cell.length
  positive : 1 ≤ event.count.toInt
  somePath : 1 ≤ event.distinctPath.toInt
  distinct : event.distinctPath.toInt ≤ event.count.toInt
  shared : ∀ taken ∈ cell, taken.sub = event.actorSub ∧ taken.slug = event.applicationSlug ∧
    taken.decision = event.decision ∧ taken.srcIp = event.srcIp
  first : ∃ taken, cell.head? = some taken ∧
    event.firstPath = taken.path ∧ event.requestId = taken.requestId

/-- What holds of a counter and the cell it was folded from. -/
structure Folded (cell : List Taken) (counters : Counters) : Prop where
  count : counters.count = BitVec.ofNat 32 cell.length
  positive : 1 ≤ counters.distinct.length
  distinct : counters.distinct.length ≤ cell.length
  first : ∃ taken, cell.head? = some taken ∧
    counters.firstPath = taken.path ∧ counters.requestId = taken.requestId

theorem length_insert (hash : UInt64) (distinct : List UInt64) :
    1 ≤ (distinct.insert hash).length ∧ (distinct.insert hash).length ≤ distinct.length + 1 := by
  by_cases known : hash ∈ distinct
  · rw [List.insert_of_mem known]
    exact ⟨List.length_pos_of_mem known, Nat.le_succ _⟩
  · rw [List.insert_of_not_mem known]
    exact ⟨Nat.succ_le_succ (Nat.zero_le _), le_refl _⟩

theorem folded_of_summary {cell : List Taken} {counters : Counters}
    (made : summary pathHash cell = some counters) : Folded cell counters := by
  induction cell using List.reverseRecOn generalizing counters with
  | nil => cases made
  | append_singleton cell taken ih =>
    rw [summary_append] at made
    obtain rfl := (Option.some.inj made).symm
    cases earlier : summary pathHash cell with
    | none =>
      obtain rfl := summary_eq_none.mp earlier
      exact ⟨rfl, le_refl _, le_refl _, taken, rfl, rfl, rfl⟩
    | some before =>
      obtain ⟨count, positive, distinct, first, head, path, requestId⟩ := ih earlier
      obtain ⟨present, grows⟩ := length_insert (pathHash taken.path) before.distinct
      refine ⟨?_, present, ?_, first, ?_, path, requestId⟩
      · show before.count + 1 = _
        rw [count, List.length_append, List.length_singleton, BitVec.ofNat_add]
        rfl
      · rw [List.length_append, List.length_singleton]
        exact grows.trans (Nat.succ_le_succ distinct)
      · rw [List.head?_append, head]
        rfl

theorem toInt_ofNat {size : Nat} (small : size < 2 ^ 31) : (BitVec.ofNat 32 size).toInt = size := by
  have value : (BitVec.ofNat 32 size).toNat = size := by
    rw [BitVec.toNat_ofNat]
    omega
  rw [BitVec.toInt_eq_toNat_of_lt (by omega), value]

/-- **The row of a counter accounts for its cell**, as long as the counter has not wrapped. -/
theorem Folded.accounts {cell : List Taken} {counters : Counters} {entry : Entry}
    {outcome : Outcome} (folded : Folded cell counters) (small : cell.length < 2 ^ 31)
    (shared : ∀ taken ∈ cell, taken.sub = entry.sub ∧ taken.slug = entry.slug ∧
      (taken.decision, taken.srcIp) = outcome) :
    Accounts cell (eventOf http entry outcome counters) := by
  obtain ⟨count, positive, distinct, first⟩ := folded
  have counted : counters.count.toInt = cell.length := by
    rw [count, toInt_ofNat small]
  have paths : (BitVec.ofNat 32 counters.distinct.length).toInt = counters.distinct.length :=
    toInt_ofNat (lt_of_le_of_lt distinct small)
  refine ⟨counted, ?_, ?_, ?_, ?_, first⟩
  · show 1 ≤ counters.count.toInt
    omega
  · show 1 ≤ (BitVec.ofNat 32 counters.distinct.length).toInt
    omega
  · show (BitVec.ofNat 32 counters.distinct.length).toInt ≤ counters.count.toInt
    omega
  · intro taken member
    obtain ⟨sub, slug, rfl⟩ := shared taken member
    exact ⟨sub, slug, rfl, rfl⟩

theorem ownRow_accounts {request : Subrequest} {cached : Cached} {now seen : DateTime} :
    Accounts [takenOf http request cached now seen] (ownRow http request cached now seen) := by
  refine ⟨rfl, le_refl 1, le_refl 1, le_refl 1, ?_, _, rfl, rfl, rfl⟩
  intro taken member
  obtain rfl := List.mem_singleton.mp member
  exact ⟨rfl, rfl, rfl, rfl⟩

/-! ### The account -/

/-- Where each decision has gone. -/
structure Account where
  live : Key → Outcome → List Taken
  pending : List (List Taken × AuditEvent)
  recorded : List (List Taken × AuditEvent)

/-- The cells of the live entries. -/
def Account.inEntries (account : Account) (entries : Assoc Key Entry) : List Taken :=
  total (fun key entry => total (fun outcome _ => account.live key outcome) entry.counters) entries

/-- The counter of a live entry. -/
def counterAt (entries : Assoc Key Entry) (key : Key) (outcome : Outcome) : Option Counters :=
  (entries.lookup key).bind fun entry => entry.counters.lookup outcome

variable (pathHash)

/-- The books close: each decision taken is in exactly one place, the decisions of a place are in
the order they were taken in, and each place says what it holds. -/
structure Conserved (trace : List Seen) (inner : Inner) (rows : List AuditEvent)
    (account : Account) : Prop where
  live : ∀ key outcome,
    counterAt inner.entries key outcome = summary pathHash (account.live key outcome)
  pending : account.pending.map Prod.snd = rows
  recorded : account.recorded.map Prod.snd = events trace
  accounts : ∀ pair ∈ account.pending ++ account.recorded, Accounts pair.1 pair.2
  liveOrder : ∀ key outcome, (account.live key outcome).Sublist (decisions trace)
  rowOrder : ∀ pair ∈ account.pending ++ account.recorded, pair.1.Sublist (decisions trace)
  once : (decisions trace).Perm (account.inEntries inner.entries ++
    account.pending.flatMap Prod.fst ++ account.recorded.flatMap Prod.fst)

/-- The account together with what keeps it: entries under their owner's name, and no counter at its
bound. -/
structure Balanced (owner : BitVec 256 → Str) (trace : List Seen) (inner : Inner)
    (rows : List AuditEvent) (account : Account) : Prop extends
    Conserved pathHash trace inner rows account where
  owned : ∀ key entry, inner.entries.lookup key = some entry →
    entry.sub = owner key.cookie ∧ entry.slug = key.slug
  shared : ∀ key outcome, ∀ taken ∈ account.live key outcome,
    taken.sub = owner key.cookie ∧ taken.slug = key.slug ∧ (taken.decision, taken.srcIp) = outcome
  small : ∀ key outcome, (account.live key outcome).length < 2 ^ 31

variable {pathHash} {owner : BitVec 256 → Str} {trace : List Seen} {inner middle last : Inner}
  {rows : List AuditEvent} {account : Account}

/-- The cells of an entry, as the rows that `flush` makes of it. -/
def Account.flushed (account : Account) (key : Key) (entry : Entry) :
    List (List Taken × AuditEvent) :=
  entry.counters.entries.map fun cell =>
    (account.live key cell.1, eventOf http entry cell.1 cell.2)

/-- The account after an entry has left. -/
def Account.leave (account : Account) (key : Key) (entry : Entry) : Account :=
  { live := fun other outcome => if other = key then [] else account.live other outcome
    pending := account.pending ++ account.flushed http key entry
    recorded := account.recorded }

theorem Account.inEntries_leave {entries : Assoc Key Entry} {key : Key} {entry : Entry}
    (found : entries.lookup key = some entry) :
    (account.inEntries entries).Perm ((account.flushed http key entry).flatMap Prod.fst ++
      (account.leave http key entry).inEntries (entries.erase key)) := by
  have rest : (account.leave http key entry).inEntries (entries.erase key) =
      account.inEntries (entries.erase key) := by
    refine Lib.total_congr fun other value inside => ?_
    refine Lib.total_congr fun outcome _ _ => ?_
    exact if_neg (Lib.lookup_erase_eq_some.mp inside).1
  have share : (account.flushed http key entry).flatMap Prod.fst =
      total (fun outcome _ => account.live key outcome) entry.counters :=
    List.flatMap_map _ _ _
  rw [rest, share]
  exact Lib.total_erase _ found

theorem Account.leave_live_same {key : Key} {entry : Entry} {outcome : Outcome} :
    (account.leave http key entry).live key outcome = [] :=
  if_pos rfl

theorem Account.leave_live_other {key other : Key} {entry : Entry} {outcome : Outcome}
    (different : other ≠ key) :
    (account.leave http key entry).live other outcome = account.live other outcome :=
  if_neg different

/-- Each row that `flush` makes accounts for the cell of its counter. -/
theorem Balanced.flushed_accounts {key : Key} {entry : Entry}
    (balanced : Balanced pathHash owner trace inner rows account)
    (found : inner.entries.lookup key = some entry) {pair : List Taken × AuditEvent}
    (member : pair ∈ account.flushed http key entry) : Accounts pair.1 pair.2 := by
  obtain ⟨⟨outcome, counters⟩, inside, rfl⟩ := List.mem_map.mp member
  obtain ⟨sub, slug⟩ := balanced.owned key entry found
  have made : summary pathHash (account.live key outcome) = some counters := by
    rw [← balanced.live key outcome]
    unfold counterAt
    rw [found]
    exact AList.mem_lookup_iff.mpr inside
  refine (folded_of_summary made).accounts http (balanced.small key outcome) ?_
  intro taken counted
  rw [sub, slug]
  exact balanced.shared key outcome taken counted

/-- **An entry leaves**: its cells become rows made out. -/
theorem Balanced.leave {key : Key} {entry : Entry}
    (balanced : Balanced pathHash owner trace inner rows account)
    (removed : inner.remove key = some (entry, middle)) :
    Balanced pathHash owner trace middle (rows ++ flush http entry)
      (account.leave http key entry) := by
  obtain ⟨found, rfl⟩ := remove_eq_some.mp removed
  refine ⟨⟨?_, ?_, balanced.recorded, ?_, ?_, ?_, ?_⟩, ?_, ?_, ?_⟩
  · intro other outcome
    unfold counterAt
    by_cases same : other = key
    · subst same
      rw [AList.lookup_erase, Account.leave_live_same]
      rfl
    · rw [AList.lookup_erase_ne same, Account.leave_live_other http same]
      exact balanced.live other outcome
  · show (account.pending ++ account.flushed http key entry).map Prod.snd = _
    rw [List.map_append, balanced.pending]
    unfold Account.flushed flush
    rw [List.map_map]
    rfl
  · intro pair member
    rcases List.mem_append.mp member with waiting | done
    · rcases List.mem_append.mp waiting with old | new
      · exact balanced.accounts pair (List.mem_append_left _ old)
      · exact balanced.flushed_accounts http found new
    · exact balanced.accounts pair (List.mem_append_right _ done)
  · intro other outcome
    by_cases same : other = key
    · subst same
      rw [Account.leave_live_same]
      exact List.nil_sublist _
    · rw [Account.leave_live_other http same]
      exact balanced.liveOrder other outcome
  · intro pair member
    rcases List.mem_append.mp member with waiting | done
    · rcases List.mem_append.mp waiting with old | new
      · exact balanced.rowOrder pair (List.mem_append_left _ old)
      · obtain ⟨cell, _, rfl⟩ := List.mem_map.mp new
        exact balanced.liveOrder key cell.1
    · exact balanced.rowOrder pair (List.mem_append_right _ done)
  · refine balanced.once.trans (List.Perm.append_right _ ?_)
    show (account.inEntries inner.entries ++ account.pending.flatMap Prod.fst).Perm
      ((account.leave http key entry).inEntries (inner.entries.erase key) ++
        (account.pending ++ account.flushed http key entry).flatMap Prod.fst)
    rw [List.flatMap_append]
    have moved :=
      (account.inEntries_leave http found).append_right (account.pending.flatMap Prod.fst)
    refine moved.trans (List.perm_iff_count.mpr fun taken => ?_)
    simp only [List.count_append]
    omega
  · intro other value inside
    exact balanced.owned other value (Lib.lookup_erase_eq_some.mp inside).2
  · intro other outcome taken member
    by_cases same : other = key
    · subst same
      rw [Account.leave_live_same] at member
      cases member
    · rw [Account.leave_live_other http same] at member
      exact balanced.shared other outcome taken member
  · intro other outcome
    by_cases same : other = key
    · subst same
      rw [Account.leave_live_same]
      decide
    · rw [Account.leave_live_other http same]
      exact balanced.small other outcome

theorem Balanced.leaves {leaving : List Entry} (left : Leaves inner leaving last)
    (balanced : Balanced pathHash owner trace inner rows account) :
    ∃ account, Balanced pathHash owner trace last
      (rows ++ leaving.flatMap (flush http)) account := by
  induction left generalizing rows account with
  | none inner =>
    refine ⟨account, ?_⟩
    rwa [List.flatMap_nil, List.append_nil]
  | one removed _ ih =>
    obtain ⟨after, kept⟩ := ih (balanced.leave http removed)
    refine ⟨after, ?_⟩
    rwa [List.flatMap_cons, ← List.append_assoc]

/-- **An entry enters**, with nothing counted. -/
theorem Balanced.enter {now : Instant} {key : Key} {sub : Str} {cached : Cached}
    (balanced : Balanced pathHash owner trace inner rows account)
    (absent : inner.entries.lookup key = none) (own : sub = owner key.cookie) :
    Balanced pathHash owner trace
      (inner.enter key (freshEntry now key sub cached)) rows account := by
  refine ⟨⟨?_, balanced.pending, balanced.recorded, balanced.accounts, balanced.liveOrder,
    balanced.rowOrder, ?_⟩, ?_, balanced.shared, balanced.small⟩
  · intro other outcome
    rw [← balanced.live other outcome]
    unfold counterAt Inner.enter
    by_cases same : other = key
    · subst same
      rw [AList.lookup_insert, absent]
      rfl
    · rw [AList.lookup_insert_ne same]
  · have nothing : account.inEntries (inner.enter key (freshEntry now key sub cached)).entries =
        account.inEntries inner.entries := by
      unfold Account.inEntries Inner.enter
      rw [Lib.total_insert, Lib.erase_of_absent absent]
      rfl
    rw [nothing]
    exact balanced.once
  · intro other value inside
    rcases Lib.lookup_insert_eq_some.mp inside with ⟨rfl, rfl⟩ | ⟨_, old⟩
    · exact ⟨own, rfl⟩
    · exact balanced.owned other value old

/-! ### Deciding and recording -/

theorem decisions_took (trace : List Seen) (taken : Taken) :
    decisions (trace ++ [.took taken]) = decisions trace ++ [taken] := by
  unfold decisions
  rw [List.filterMap_append]
  rfl

theorem events_took (trace : List Seen) (taken : Taken) :
    events (trace ++ [.took taken]) = events trace := by
  unfold events
  rw [List.filterMap_append]
  exact List.append_nil _

theorem decisions_recorded (trace : List Seen) (event : AuditEvent) (accepted : Bool) :
    decisions (trace ++ [.recorded event accepted]) = decisions trace := by
  unfold decisions
  rw [List.filterMap_append]
  exact List.append_nil _

theorem events_recorded (trace : List Seen) (event : AuditEvent) (accepted : Bool) :
    events (trace ++ [.recorded event accepted]) = events trace ++ [event] := by
  unfold events
  rw [List.filterMap_append]
  rfl

theorem Conserved.live_took {account : Account}
    (conserved : Conserved pathHash trace inner rows account) (taken : Taken) (key : Key)
    (outcome : Outcome) :
    (account.live key outcome).Sublist (decisions (trace ++ [.took taken])) := by
  rw [decisions_took]
  exact (conserved.liveOrder key outcome).trans (List.sublist_append_left _ _)

theorem Conserved.rows_took {account : Account}
    (conserved : Conserved pathHash trace inner rows account) (taken : Taken) :
    ∀ pair ∈ account.pending ++ account.recorded,
      pair.1.Sublist (decisions (trace ++ [.took taken])) := by
  intro pair member
  rw [decisions_took]
  exact (conserved.rowOrder pair member).trans (List.sublist_append_left _ _)

/-- The account after a decision has been counted. -/
def Account.count (account : Account) (key : Key) (outcome : Outcome) (taken : Taken) : Account :=
  { account with
    live := fun other another =>
      if other = key ∧ another = outcome then account.live key outcome ++ [taken]
      else account.live other another }

theorem Account.count_live_same {key : Key} {outcome : Outcome} {taken : Taken} :
    (account.count key outcome taken).live key outcome = account.live key outcome ++ [taken] :=
  if_pos ⟨rfl, rfl⟩

theorem Account.count_live_other {key other : Key} {outcome another : Outcome} {taken : Taken}
    (different : ¬ (other = key ∧ another = outcome)) :
    (account.count key outcome taken).live other another = account.live other another :=
  if_neg different

/-- The cell of one outcome can be taken out in front. -/
theorem cells_perm {cells : Outcome → List Taken} {counters : Assoc Outcome Counters}
    {outcome : Outcome} (known : counters.lookup outcome = summary pathHash (cells outcome)) :
    (total (fun outcome _ => cells outcome) counters).Perm
      (cells outcome ++ total (fun outcome _ => cells outcome) (counters.erase outcome)) := by
  cases found : counters.lookup outcome with
  | none =>
    have nothing : cells outcome = [] := by
      rw [found] at known
      exact summary_eq_none.mp known.symm
    rw [Lib.erase_of_absent found, nothing]
    exact List.Perm.refl _
  | some value => exact Lib.total_erase (fun outcome _ => cells outcome) found

/-- What `count` does to a live entry. -/
def Entry.counting (entry : Entry) (outcome : Outcome) (counters : Counters) : Entry :=
  { entry with counters := entry.counters.insert outcome counters }

theorem count_eq_some {key : Key} {decision : Decision} {path : Str} {srcIp : Option IpAddr}
    {requestId : Option Str} {now : DateTime}
    (done : count pathHash inner key decision path srcIp requestId now = some last) :
    ∃ entry, inner.entries.lookup key = some entry ∧
      last = { inner with entries := inner.entries.insert key (entry.counting (decision, srcIp)
        (((entry.counters.lookup (decision, srcIp)).getD (.open path requestId now)).fold
          (pathHash path) now)) } := by
  unfold count at done
  split at done
  · cases done
  · rename_i entry found
    cases done
    exact ⟨entry, found, rfl⟩

theorem Account.inEntries_count {entries : Assoc Key Entry} {key : Key} {entry : Entry}
    {outcome : Outcome} {taken : Taken} {counters : Counters}
    (found : entries.lookup key = some entry)
    (known : entry.counters.lookup outcome = summary pathHash (account.live key outcome)) :
    ((account.count key outcome taken).inEntries
      (entries.insert key (entry.counting outcome counters))).Perm
        (account.inEntries entries ++ [taken]) := by
  have others : total (fun other entry =>
        total (fun another _ => (account.count key outcome taken).live other another)
          entry.counters)
        (entries.erase key) = account.inEntries (entries.erase key) := by
    refine Lib.total_congr fun other value inside => ?_
    refine Lib.total_congr fun another _ _ => ?_
    exact Account.count_live_other fun both => (Lib.lookup_erase_eq_some.mp inside).1 both.1
  have same : total (fun another _ => (account.count key outcome taken).live key another)
        (entry.counters.erase outcome) =
      total (fun another _ => account.live key another) (entry.counters.erase outcome) := by
    refine Lib.total_congr fun another _ inside => ?_
    exact Account.count_live_other fun both => (Lib.lookup_erase_eq_some.mp inside).1 both.2
  have after : (account.count key outcome taken).inEntries
      (entries.insert key (entry.counting outcome counters)) =
      account.live key outcome ++ [taken] ++
        total (fun another _ => account.live key another) (entry.counters.erase outcome) ++
        account.inEntries (entries.erase key) := by
    unfold Account.inEntries Entry.counting at *
    rw [Lib.total_insert, others]
    dsimp only
    rw [Lib.total_insert, Account.count_live_same, same]
  have before : (account.inEntries entries).Perm
      (account.live key outcome ++
        total (fun another _ => account.live key another) (entry.counters.erase outcome) ++
        account.inEntries (entries.erase key)) :=
    (Lib.total_erase _ found).trans ((cells_perm known).append_right _)
  rw [after]
  refine (List.perm_iff_count.mpr fun one => ?_).trans (before.symm.append_right _)
  simp only [List.count_append]
  omega

/-- The largest `i32`. -/
def countMax : BitVec 32 := BitVec.intMax 32

/-- A counter below its bound has been folded from less than the bound. -/
theorem Balanced.length_ne_max {key : Key} {outcome : Outcome}
    (balanced : Balanced pathHash owner trace inner rows account)
    (room : ∀ counters, counterAt inner.entries key outcome = some counters →
      counters.count ≠ countMax) :
    (account.live key outcome).length ≠ 2 ^ 31 - 1 := by
  intro full
  cases made : summary pathHash (account.live key outcome) with
  | none =>
    rw [summary_eq_none.mp made] at full
    cases full
  | some counters =>
    refine room counters ((balanced.live key outcome).trans made) ?_
    rw [(folded_of_summary made).count, full]
    rfl

/-- **A decision is counted** in its entry, under its own outcome. -/
theorem Balanced.count {key : Key} {taken : Taken}
    (balanced : Balanced pathHash owner trace inner rows account)
    (sub : taken.sub = owner key.cookie) (slug : taken.slug = key.slug)
    (room : ∀ counters, counterAt inner.entries key (taken.decision, taken.srcIp) = some counters →
      counters.count ≠ countMax)
    (done : Cache.count pathHash inner key taken.decision taken.path taken.srcIp taken.requestId
      taken.seen = some last) :
    Balanced pathHash owner (trace ++ [.took taken]) last rows
      (account.count key (taken.decision, taken.srcIp) taken) := by
  obtain ⟨entry, found, rfl⟩ := count_eq_some done
  have known : entry.counters.lookup (taken.decision, taken.srcIp) =
      summary pathHash (account.live key (taken.decision, taken.srcIp)) := by
    rw [← balanced.live]
    unfold counterAt
    rw [found]
    rfl
  refine ⟨⟨?_, balanced.pending, ?_, balanced.accounts, ?_, balanced.rows_took taken, ?_⟩,
    ?_, ?_, ?_⟩
  · intro other another
    unfold counterAt
    by_cases same : other = key
    · subst same
      rw [AList.lookup_insert]
      show (entry.counters.insert _ _).lookup another = _
      by_cases outcome : another = (taken.decision, taken.srcIp)
      · subst outcome
        rw [AList.lookup_insert, Account.count_live_same, summary_append, known]
      · rw [AList.lookup_insert_ne outcome, Account.count_live_other fun both => outcome both.2,
          ← balanced.live]
        unfold counterAt
        rw [found]
        rfl
    · rw [AList.lookup_insert_ne same, Account.count_live_other fun both => same both.1]
      exact balanced.live other another
  · rw [events_took]
    exact balanced.recorded
  · intro other another
    by_cases same : other = key ∧ another = (taken.decision, taken.srcIp)
    · rw [same.1, same.2, Account.count_live_same, decisions_took]
      exact (balanced.liveOrder _ _).append_right [taken]
    · rw [Account.count_live_other same]
      exact balanced.live_took taken other another
  · rw [decisions_took]
    refine List.Perm.trans ?_
      (((Account.inEntries_count found known).symm.append_right _).append_right _)
    refine (balanced.once.append_right [taken]).trans (List.perm_iff_count.mpr fun one => ?_)
    show List.count one _ = List.count one (_ ++ account.pending.flatMap Prod.fst ++
      account.recorded.flatMap Prod.fst)
    simp only [List.count_append]
    omega
  · intro other value inside
    rcases Lib.lookup_insert_eq_some.mp inside with ⟨rfl, rfl⟩ | ⟨_, old⟩
    · exact balanced.owned other entry found
    · exact balanced.owned other value old
  · intro other another one member
    by_cases same : other = key ∧ another = (taken.decision, taken.srcIp)
    · obtain ⟨rfl, rfl⟩ := same
      rw [Account.count_live_same] at member
      rcases List.mem_append.mp member with old | new
      · exact balanced.shared _ _ one old
      · obtain rfl := List.mem_singleton.mp new
        exact ⟨sub, slug, rfl⟩
    · rw [Account.count_live_other same] at member
      exact balanced.shared other another one member
  · intro other another
    by_cases same : other = key ∧ another = (taken.decision, taken.srcIp)
    · rw [same.1, same.2, Account.count_live_same, List.length_append, List.length_singleton]
      have below := balanced.small key (taken.decision, taken.srcIp)
      have apart := balanced.length_ne_max room
      omega
    · rw [Account.count_live_other same]
      exact balanced.small other another

/-- **A decision with no entry to be counted in** makes its own row. -/
theorem Balanced.own {taken : Taken} {event : AuditEvent}
    (balanced : Balanced pathHash owner trace inner rows account)
    (row : Accounts [taken] event) :
    Balanced pathHash owner (trace ++ [.took taken]) inner (rows ++ [event])
      { account with pending := account.pending ++ [([taken], event)] } := by
  refine ⟨⟨balanced.live, ?_, ?_, ?_, balanced.live_took taken, ?_, ?_⟩, balanced.owned,
    balanced.shared, balanced.small⟩
  · rw [List.map_append, balanced.pending]
    rfl
  · rw [events_took]
    exact balanced.recorded
  · intro pair member
    rcases List.mem_append.mp member with waiting | done
    · rcases List.mem_append.mp waiting with old | new
      · exact balanced.accounts pair (List.mem_append_left _ old)
      · obtain rfl := List.mem_singleton.mp new
        exact row
    · exact balanced.accounts pair (List.mem_append_right _ done)
  · intro pair member
    rcases List.mem_append.mp member with waiting | done
    · rcases List.mem_append.mp waiting with old | new
      · exact balanced.rows_took taken pair (List.mem_append_left _ old)
      · obtain rfl := List.mem_singleton.mp new
        rw [decisions_took]
        exact List.sublist_append_right _ _
    · exact balanced.rows_took taken pair (List.mem_append_right _ done)
  · rw [decisions_took]
    refine (balanced.once.append_right [taken]).trans (List.perm_iff_count.mpr fun one => ?_)
    have same : Account.inEntries
        { account with pending := account.pending ++ [([taken], event)] } inner.entries =
        account.inEntries inner.entries := rfl
    rw [same]
    simp only [List.count_append, List.flatMap_append, List.flatMap_singleton]
    omega

/-- **A row is handed over.** -/
theorem Balanced.record {row : Nat} {event : AuditEvent} {accepted : Bool}
    (balanced : Balanced pathHash owner trace inner rows account)
    (waiting : rows[row]? = some event) :
    ∃ account, Balanced pathHash owner (trace ++ [.recorded event accepted]) inner
      (rows.eraseIdx row)
      account := by
  rw [← balanced.pending, List.getElem?_map, Option.map_eq_some_iff] at waiting
  obtain ⟨pair, found, rfl⟩ := waiting
  obtain ⟨inside, rfl⟩ := List.getElem?_eq_some_iff.mp found
  have taken : account.pending.Perm (account.pending[row] :: account.pending.eraseIdx row) :=
    (List.getElem_cons_eraseIdx_perm inside).symm
  have known : ∀ pair ∈ account.pending.eraseIdx row ++
      (account.recorded ++ [account.pending[row]]), pair ∈ account.pending ++ account.recorded := by
    intro pair member
    rcases List.mem_append.mp member with waiting | done
    · exact List.mem_append_left _ (List.mem_of_mem_eraseIdx waiting)
    · rcases List.mem_append.mp done with old | new
      · exact List.mem_append_right _ old
      · obtain rfl := List.mem_singleton.mp new
        exact List.mem_append_left _ (List.getElem_mem inside)
  refine ⟨{ account with
    pending := account.pending.eraseIdx row
    recorded := account.recorded ++ [account.pending[row]] },
    ⟨balanced.live, ?_, ?_, fun pair member => balanced.accounts pair (known pair member), ?_,
      fun pair member => ?_, ?_⟩,
    balanced.owned, balanced.shared, balanced.small⟩
  · rw [← balanced.pending, List.eraseIdx_map]
  · rw [events_recorded, List.map_append, balanced.recorded]
    rfl
  · rw [decisions_recorded]
    exact balanced.liveOrder
  · rw [decisions_recorded]
    exact balanced.rowOrder pair (known pair member)
  · rw [decisions_recorded]
    refine balanced.once.trans (List.perm_iff_count.mpr fun one => ?_)
    have moved := ((taken.flatMap_right Prod.fst).count_eq one)
    have same : Account.inEntries { account with
        pending := account.pending.eraseIdx row
        recorded := account.recorded ++ [account.pending[row]] } inner.entries =
        account.inEntries inner.entries := rfl
    rw [same]
    simp only [List.count_append, List.flatMap_append, List.flatMap_cons, List.flatMap_nil,
      List.append_nil] at moved ⊢
    omega

theorem Balanced.lost {event : AuditEvent}
    (balanced : Balanced pathHash owner trace inner rows account) :
    Balanced pathHash owner (trace ++ [.lost event]) inner rows account := by
  have recorded : events (trace ++ [.lost event]) = events trace := by
    unfold events
    rw [List.filterMap_append]
    exact List.append_nil _
  have taken : decisions (trace ++ [.lost event]) = decisions trace := by
    unfold decisions
    rw [List.filterMap_append]
    exact List.append_nil _
  refine ⟨⟨balanced.live, balanced.pending, ?_, balanced.accounts, ?_, ?_, ?_⟩, balanced.owned,
    balanced.shared, balanced.small⟩
  · rw [recorded]
    exact balanced.recorded
  · rw [taken]
    exact balanced.liveOrder
  · rw [taken]
    exact balanced.rowOrder
  · rw [taken]
    exact balanced.once

/-! ### A whole run -/

/-- One cookie value authenticates as one subject, SHA-256 taken to be free of collisions. -/
def Owned (owner : BitVec 256 → Str) : Label → Prop
  | .insert key sub _ _ => sub = owner key.cookie
  | .answer request cached _ _ =>
    ∀ key, request.key = some key → http.text cached.identity.sub = owner key.cookie
  | _ => True

/-- The step folds a decision into a counter that stands at `i32::MAX`. -/
def AtBound (state : State) : Label → Prop
  | .answer request cached now _ => ∃ key counters, request.key = some key ∧
      counterAt state.inner.entries key (cached.decision request.uri now, request.srcIp) =
        some counters ∧ counters.count = countMax
  | _ => False

variable (pathHash)

/-- The empty account. -/
theorem balanced_init : Balanced pathHash owner [] State.init.inner State.init.rows
    ⟨fun _ _ => [], [], []⟩ := by
  refine ⟨⟨fun _ _ => rfl, rfl, rfl, ?_, fun _ _ => List.nil_sublist _, ?_, List.Perm.refl _⟩, ?_,
    ?_, fun _ _ => Nat.two_pow_pos 31⟩
  · intro pair member
    cases member
  · intro pair member
    cases member
  · intro key entry found
    cases found
  · intro key outcome taken member
    cases member

/-- **Every decision is in one place, over every run in which no counter is driven past its
bound.** -/
theorem audit_conserved (owner : BitVec 256 → Str) {trace : List Seen} {state : State}
    (run : Run (step http pathHash)
      (fun state label => Owned http owner label ∧ ¬ AtBound state label) .init trace state) :
    (∃ account, Conserved pathHash trace state.inner state.rows account) ∧
      AuditExact trace state := by
  refine ⟨?_, audit_exact run⟩
  suffices kept : ∃ account, Balanced pathHash owner trace state.inner state.rows account by
    obtain ⟨account, balanced⟩ := kept
    exact ⟨account, balanced.toConserved⟩
  induction run with
  | refl => exact ⟨_, balanced_init pathHash⟩
  | @next trace state label state' out _ permitted stepped ih =>
    obtain ⟨account, balanced⟩ := ih
    obtain ⟨owned, unbounded⟩ := permitted
    cases label with
    | insert key sub cached plan =>
      obtain ⟨rfl, rfl⟩ := step_insert stepped
      obtain ⟨middle, replaced, victims, first, absent, second, leaving⟩ :=
        insert_eq plan state.now state.inner key sub cached
      obtain ⟨account, balanced⟩ := balanced.leaves http first
      obtain ⟨account, balanced⟩ := (balanced.enter absent owned).leaves http second
      refine ⟨account, ?_⟩
      rw [List.append_nil]
      show Balanced pathHash owner trace _ (state.rows ++ _) account
      rwa [leaving, List.flatMap_append, ← List.append_assoc]
    | answer request cached now seen =>
      obtain ⟨rfl, ⟨inner, done, rfl⟩ | ⟨_, rfl⟩⟩ := step_answer stepped
      · obtain ⟨key, keyed, done⟩ := Option.bind_eq_some_iff.mp done
        refine ⟨_, @Balanced.count pathHash owner trace _ _ _ account key _ balanced
          (owned key keyed) (request.keyed key keyed).symm ?_ done⟩
        intro counters found full
        exact unbounded ⟨key, counters, keyed, found, full⟩
      · exact ⟨_, balanced.own (ownRow_accounts http)⟩
    | walk job scope plan =>
      obtain ⟨rfl, _, rfl⟩ := step_walk stepped
      rw [List.append_nil]
      exact ⟨account, balanced⟩
    | evict job =>
      obtain ⟨rfl, key, keys, _, ⟨_, rfl⟩ | ⟨entry, inner, removed, rfl⟩⟩ := step_evict stepped
      · rw [List.append_nil]
        exact ⟨account, balanced⟩
      · rw [List.append_nil]
        exact ⟨_, balanced.leave http removed⟩
    | record row =>
      obtain ⟨event, waiting, rfl, rfl⟩ := step_record stepped
      exact balanced.record waiting
    | receive stored =>
      obtain ⟨event, queue, _, rfl, rfl⟩ := step_receive stepped
      cases stored with
      | true =>
        refine ⟨account, ?_⟩
        show Balanced pathHash owner (trace ++ []) _ _ account
        rw [List.append_nil]
        exact balanced
      | false => exact ⟨account, balanced.lost⟩
    | swap live =>
      cases stepped
      rw [List.append_nil]
      exact ⟨account, balanced⟩
    | tick elapsed =>
      cases stepped
      rw [List.append_nil]
      exact ⟨account, balanced⟩

end Books

/-! ### One entry, two paths, one request repeated -/

namespace Repeated

/-- The session's key for `wiki`. -/
def key : Key := ⟨0, "wiki".toList⟩

/-- A user without a grant. -/
def cached : Cached := ⟨Miss.member [], [], true, some 1⟩

/-- A request for a path. -/
def request (path requestId : Str) : Subrequest where
  key := some key
  slug := "wiki".toList
  uri := path
  auditPath := path
  srcIp := none
  requestId := some requestId
  keyed := by
    intro cacheKey same
    rw [← Option.some.inj same]
    rfl

/-- The request that is repeated. -/
def root : Subrequest := request ['/'] "r1".toList

/-- The request for another path. -/
def page : Subrequest := request "/page".toList "r2".toList

/-- The user of the entry. -/
def sub : Str := HeaderText.documented.text cached.identity.sub

/-- The outcome of every request. -/
def outcome : Outcome := (cached.decision root.uri 0, none)

/-- The counter after so many requests. -/
def counter (requests : Nat) : Counters :=
  { count := BitVec.ofNat 32 requests
    firstSeen := 0
    lastSeen := 0
    firstPath := ['/']
    requestId := some "r1".toList
    distinct := [1] }

/-- The entry after so many requests. -/
def entry (requests : Nat) : Entry :=
  (freshEntry 0 key sub cached).counting outcome (counter requests)

/-- A cache of this entry. -/
def inner (requests : Nat) : Inner :=
  ⟨(∅ : Assoc Key Entry).insert key (entry requests), (∅ : Assoc Str (List Key)).insert sub [key]⟩

/-- The instance serves hits. -/
def state (requests : Nat) : State :=
  { State.init with
    inner := inner requests
    subscribed := true }

/-- The length of the path for a hash. -/
def pathHash : Str → UInt64 := fun path => UInt64.ofNat path.length

theorem counted_inner (requests : Nat) :
    counted pathHash (inner requests) root cached 0 0 = some (inner (requests + 1)) := by
  have found : (inner requests).entries.lookup key = some (entry requests) :=
    AList.lookup_insert _
  have earlier : (entry requests).counters.lookup outcome = some (counter requests) :=
    AList.lookup_insert _
  have more : (counter requests).fold 1 0 = counter (requests + 1) := by
    unfold Counters.fold counter
    rw [BitVec.ofNat_add]
    rfl
  show count pathHash (inner requests) key outcome.1 ['/'] outcome.2 (some "r1".toList) 0 = _
  unfold count
  rw [found]
  dsimp only
  rw [earlier]
  show some (⟨(inner requests).entries.insert key
    ((entry requests).counting outcome ((counter requests).fold 1 0)), _⟩ : Inner) = _
  have again : (entry requests).counting outcome ((counter requests).fold 1 0) =
      entry (requests + 1) := by
    rw [more]
    unfold entry Entry.counting
    rw [AList.insert_insert]
  rw [again]
  unfold inner
  rw [AList.insert_insert]

theorem step_repeat (requests : Nat) :
    step HeaderText.documented pathHash (state requests) (.answer root cached 0 0) =
      some (state (requests + 1), [.took (takenOf HeaderText.documented root cached 0 0)]) := by
  unfold step
  dsimp only
  rw [show (state requests).inner = inner requests from rfl, counted_inner]
  rfl

/-- The instance is subscribed; the first request fills the entry and is counted in it. -/
theorem exec_first :
    exec (step HeaderText.documented pathHash) .init
      [.swap true, .insert key sub cached (Plan.table Key), .answer root cached 0 0] =
      some (state 1, [.took (takenOf HeaderText.documented root cached 0 0)]) := by
  rfl

/-- Everything leaves, and the one row is handed over. -/
def leaving : List Label :=
  [.walk 0 .all (Plan.table Key), .evict 0, .record 0]

theorem exec_last (requests : Nat) :
    exec (step HeaderText.documented pathHash) (state requests) leaving =
      some ({ State.init with
          inner := .default
          subscribed := true
          audit := ⟨[eventOf HeaderText.documented (entry requests) outcome (counter requests)], 0⟩
          jobs := Function.update (Function.update (fun _ => []) 0 [key]) 0 [] },
        [.recorded (eventOf HeaderText.documented (entry requests) outcome (counter requests))
          true]) := by
  rfl

/-- One owner, and as many requests as one likes. -/
theorem run_repeat (requests : Nat) :
    ∃ trace, Run (step HeaderText.documented pathHash)
      (fun _ label => Owned HeaderText.documented (fun _ => sub) label) .init trace
      (state (requests + 1)) := by
  induction requests with
  | zero =>
    refine ⟨_, Run.of_exec ?_ exec_first⟩
    simp only [List.forall_mem_cons]
    exact ⟨fun _ => trivial, fun _ => rfl, fun _ _ _ => rfl, fun _ member => nomatch member⟩
  | succ requests ih =>
    obtain ⟨trace, run⟩ := ih
    refine ⟨_, run.next ?_ (step_repeat (requests + 1))⟩
    exact fun _ _ => rfl

/-! Two requests for two paths. -/

/-- The session asks for two paths, and everything leaves. -/
def visits : List Label :=
  [.swap true, .insert key sub cached (Plan.table Key), .answer root cached 0 0,
    .answer page cached 0 1] ++ leaving

/-- The one row: it counts both and names the first. -/
def row : AuditEvent :=
  { applicationId := some 1
    applicationSlug := "wiki".toList
    actorSub := sub
    actorName := none
    decision := .deny .noMatchingGrant
    count := 2
    firstSeen := 0
    lastSeen := 1
    distinctPath := 2
    firstPath := ['/']
    srcIp := none
    requestId := some "r1".toList }

/-- What the visits show. -/
def visited : List Seen :=
  [.took (takenOf HeaderText.documented root cached 0 0),
    .took (takenOf HeaderText.documented page cached 0 1), .recorded row true]

/-- No counter that a decision goes to stands at its bound. -/
def below (state : State) : Label → Bool
  | .answer request cached now _ =>
    (request.key.bind fun key => counterAt state.inner.entries key
      (cached.decision request.uri now, request.srcIp)).all fun counters =>
        counters.count ≠ countMax
  | _ => true

theorem not_atBound {state : State} {label : Label} (room : below state label = true) :
    ¬ AtBound state label := by
  cases label with
  | answer request cached now seen =>
    rintro ⟨key, counters, keyed, found, full⟩
    unfold below at room
    dsimp only at room
    rw [keyed, Option.bind_some, found, Option.all_some, decide_eq_true_iff] at room
    exact room full
  | _ => exact id

theorem owned_visits : ∀ label ∈ visits, Owned HeaderText.documented (fun _ => sub) label := by
  simp only [visits, leaving, List.cons_append, List.nil_append, List.forall_mem_cons]
  exact ⟨trivial, rfl, fun _ _ => rfl, fun _ _ => rfl, trivial, trivial, trivial,
    fun _ member => nomatch member⟩

theorem exec_visits : ((exec (guarded (step HeaderText.documented pathHash)
    fun state label => below state label = true) .init visits).any
      fun (_, trace) => trace = visited) = true := by
  decide +kernel

end Repeated

open Repeated in
/-- Two requests for two paths, counted in one row that names the first of them. -/
theorem audit_conserved_visits : ∃ state,
    (∃ account, Conserved pathHash visited state.inner state.rows account) ∧
      AuditExact visited state := by
  obtain ⟨⟨state, trace⟩, done, shown⟩ := (Option.any_eq_true _ _).mp exec_visits
  rw [show trace = visited from of_decide_eq_true shown] at done
  refine ⟨state, audit_conserved HeaderText.documented pathHash (fun _ => sub)
    (Run.of_exec_within (fun label member state next stepped => ?_) done)⟩
  obtain ⟨room, moved⟩ := Lib.guarded_eq_some.mp stepped
  exact ⟨⟨owned_visits label member, not_atBound room⟩, moved⟩

open Repeated in
/-- **The count wraps**: 2³¹ requests on one entry leave as a row that counts fewer than one. -/
theorem count_wraps :
    ∃ trace state, Run (step HeaderText.documented pathHash)
        (fun _ label => Owned HeaderText.documented (fun _ => sub) label) .init trace state ∧
      ∃ event ∈ events trace, ¬ 1 ≤ event.count.toInt := by
  obtain ⟨trace, run⟩ := run_repeat (2 ^ 31 - 1)
  have left : Run (step HeaderText.documented pathHash)
      (fun _ label => Owned HeaderText.documented (fun _ => sub) label) (state (2 ^ 31)) _ _ :=
    Run.of_exec (fun label member _ => owned_visits label (List.mem_append_right _ member))
      (exec_last (2 ^ 31))
  refine ⟨_, _, run.trans left, eventOf HeaderText.documented (entry (2 ^ 31)) outcome
    (counter (2 ^ 31)), ?_, by decide⟩
  unfold events
  rw [List.filterMap_append]
  exact List.mem_append_right _ List.mem_cons_self

end OpenBerat.Cache
