/-
**The two maps of the cache are inverse to each other.**

`Inner.ofSub` is the set `by_sub` keeps for a subject. Forgetting a key takes this key out of this
set and no other; entering puts it in. So the sets are the entries sorted by subject, whatever
leaves, is replaced or is counted.

* `Inner.Represented`: the invariant; `represented_of_run`: it holds over any run.
* `length_insert_le`, `insert_oldest`: the bound, and who leaves for it.
* `exec_dropSub`: a `drop_sub` that nothing interleaves with.
* `representation`: all of it, in every state of every run.
-/

import OpenBerat.Cache.Entries

namespace OpenBerat.Cache

open Lib (Assoc Plan Run exec)

section Representation

/-- `by_sub.get(sub)`, no keys where the subject is not there. -/
def ofSub (bySub : Assoc Str (List Key)) (sub : Str) : List Key :=
  (bySub.lookup sub).getD []

theorem ofSub_erase (bySub : Assoc Str (List Key)) (sub other : Str) :
    ofSub (bySub.erase sub) other = if other = sub then [] else ofSub bySub other := by
  unfold ofSub
  by_cases same : other = sub
  · rw [if_pos same, same, AList.lookup_erase]
    rfl
  · rw [if_neg same, AList.lookup_erase_ne same]

theorem ofSub_insert (bySub : Assoc Str (List Key)) (sub other : Str) (keys : List Key) :
    ofSub (bySub.insert sub keys) other = if other = sub then keys else ofSub bySub other := by
  unfold ofSub
  by_cases same : other = sub
  · rw [if_pos same, same, AList.lookup_insert]
    rfl
  · rw [if_neg same, AList.lookup_insert_ne same]

/-- **Forgetting** takes one key out of one set. -/
theorem ofSub_forgetSub (bySub : Assoc Str (List Key)) (sub other : Str) (gone : Key) :
    ofSub (forgetSub bySub sub gone) other =
      if other = sub then (ofSub bySub sub).filter (· ≠ gone) else ofSub bySub other := by
  unfold forgetSub
  cases known : bySub.lookup sub with
  | none =>
    by_cases same : other = sub
    · rw [if_pos same, same]
      unfold ofSub
      rw [known]
      rfl
    · rw [if_neg same]
  | some keys =>
    have listed : ofSub bySub sub = keys := by
      unfold ofSub
      rw [known]
      rfl
    dsimp only
    by_cases empty : keys.filter (· ≠ gone) = []
    · rw [if_pos empty, ofSub_erase, listed, empty]
    · rw [if_neg empty, ofSub_insert, listed]

/-- The sets of `by_sub` are the keys of the entries, by subject, and none is empty. -/
structure Inner.Represented (inner : Inner) : Prop where
  exactly : ∀ key sub, key ∈ ofSub inner.bySub sub ↔
    ∃ entry, inner.entries.lookup key = some entry ∧ entry.sub = sub
  inhabited : ∀ sub, inner.bySub.lookup sub ≠ some []

theorem represented_default : Inner.default.Represented :=
  ⟨fun _ _ => iff_of_false List.not_mem_nil (by rintro ⟨_, found, _⟩; cases found),
    fun _ found => by cases found⟩

variable {inner last : Inner} {key : Key}

theorem forgetSub_inhabited {bySub : Assoc Str (List Key)} {sub : Str}
    (inhabited : ∀ sub, bySub.lookup sub ≠ some []) (other : Str) :
    (forgetSub bySub sub key).lookup other ≠ some [] := by
  unfold forgetSub
  cases known : bySub.lookup sub with
  | none => exact inhabited other
  | some keys =>
    dsimp only
    by_cases empty : keys.filter (· ≠ key) = []
    · rw [if_pos empty]
      intro found
      exact inhabited other (Lib.lookup_erase_eq_some.mp found).2
    · rw [if_neg empty]
      intro found
      rcases Lib.lookup_insert_eq_some.mp found with ⟨_, nothing⟩ | ⟨_, old⟩
      · exact empty nothing
      · exact inhabited other old

theorem Inner.Represented.remove {entry : Entry} (represented : inner.Represented)
    (removed : inner.remove key = some (entry, last)) : last.Represented := by
  obtain ⟨present, rfl⟩ := remove_eq_some.mp removed
  refine ⟨fun other sub => ?_, forgetSub_inhabited represented.inhabited⟩
  have members := represented.exactly other sub
  show other ∈ ofSub (forgetSub inner.bySub entry.sub key) sub ↔
    ∃ value, (inner.entries.erase key).lookup other = some value ∧ value.sub = sub
  rw [ofSub_forgetSub]
  constructor
  · intro member
    have both : other ∈ ofSub inner.bySub sub ∧ other ≠ key := by
      by_cases same : sub = entry.sub
      · rw [if_pos same, List.mem_filter] at member
        exact ⟨same ▸ member.1, of_decide_eq_true member.2⟩
      · rw [if_neg same] at member
        refine ⟨member, ?_⟩
        rintro rfl
        obtain ⟨value, found, rfl⟩ := members.mp member
        rw [present] at found
        exact same (congrArg Entry.sub (Option.some.inj found).symm)
    obtain ⟨value, found, owner⟩ := members.mp both.1
    exact ⟨value, Lib.lookup_erase_eq_some.mpr ⟨both.2, found⟩, owner⟩
  · rintro ⟨value, found, owner⟩
    obtain ⟨different, old⟩ := Lib.lookup_erase_eq_some.mp found
    have member := members.mpr ⟨value, old, owner⟩
    by_cases same : sub = entry.sub
    · rw [if_pos same, List.mem_filter]
      exact ⟨same ▸ member, decide_eq_true different⟩
    · rw [if_neg same]
      exact member

theorem Inner.Represented.leaves {leaving : List Entry} (represented : inner.Represented)
    (left : Leaves inner leaving last) : last.Represented := by
  induction left with
  | none => exact represented
  | one removed _ ih => exact ih (represented.remove removed)

theorem Inner.Represented.enter {entry : Entry} (represented : inner.Represented)
    (absent : inner.entries.lookup key = none) : (inner.enter key entry).Represented := by
  refine ⟨fun other sub => ?_, fun sub found => ?_⟩
  · have members := represented.exactly other sub
    show other ∈ ofSub (inner.bySub.insert entry.sub
        ((ofSub inner.bySub entry.sub).insert key)) sub ↔
      ∃ value, (inner.entries.insert key entry).lookup other = some value ∧ value.sub = sub
    rw [ofSub_insert]
    constructor
    · intro member
      by_cases same : other = key
      · subst same
        refine ⟨entry, AList.lookup_insert _, ?_⟩
        by_contra foreign
        rw [if_neg (Ne.symm foreign)] at member
        obtain ⟨value, found, _⟩ := members.mp member
        rw [absent] at found
        cases found
      · have before : other ∈ ofSub inner.bySub sub := by
          by_cases own : sub = entry.sub
          · rw [if_pos own] at member
            rw [own]
            exact (List.mem_insert_iff.mp member).resolve_left same
          · rwa [if_neg own] at member
        obtain ⟨value, found, owner⟩ := members.mp before
        exact ⟨value, Lib.lookup_insert_eq_some.mpr (Or.inr ⟨same, found⟩), owner⟩
    · rintro ⟨value, found, owner⟩
      rcases Lib.lookup_insert_eq_some.mp found with ⟨rfl, rfl⟩ | ⟨_, old⟩
      · rw [if_pos owner.symm]
        exact List.mem_insert_self
      · have member := members.mpr ⟨value, old, owner⟩
        by_cases own : sub = entry.sub
        · rw [if_pos own]
          exact List.mem_insert_of_mem (own ▸ member)
        · rwa [if_neg own]
  · rcases Lib.lookup_insert_eq_some.mp found with ⟨_, nothing⟩ | ⟨_, old⟩
    · exact List.ne_nil_of_mem List.mem_insert_self nothing
    · exact represented.inhabited sub old

theorem Inner.Represented.insert {plan : Plan Key} {now : Instant} {sub : Str} {cached : Cached}
    (represented : inner.Represented) : (insert plan now inner key sub cached).1.Represented := by
  obtain ⟨middle, replaced, victims, first, absent, second, _⟩ :=
    insert_eq plan now inner key sub cached
  exact ((represented.leaves first).enter absent).leaves second

theorem Inner.Represented.count {pathHash : Str → UInt64} {decision : Decision} {path : Str}
    {srcIp : Option IpAddr} {requestId : Option Str} {seen : DateTime}
    (represented : inner.Represented)
    (done : count pathHash inner key decision path srcIp requestId seen = some last) :
    last.Represented := by
  unfold Cache.count at done
  split at done
  · cases done
  · rename_i before present
    cases done
    refine ⟨fun other sub => ?_, represented.inhabited⟩
    refine (represented.exactly other sub).trans ⟨?_, ?_⟩
    · rintro ⟨entry, found, owner⟩
      by_cases same : other = key
      · subst same
        rw [present] at found
        obtain rfl := Option.some.inj found
        exact ⟨_, AList.lookup_insert _, owner⟩
      · exact ⟨entry, Lib.lookup_insert_eq_some.mpr (Or.inr ⟨same, found⟩), owner⟩
    · rintro ⟨entry, found, owner⟩
      rcases Lib.lookup_insert_eq_some.mp found with ⟨rfl, rfl⟩ | ⟨_, old⟩
      · exact ⟨before, present, owner⟩
      · exact ⟨entry, old, owner⟩

/-! ### The bound -/

theorem length_erase {entry : Entry} {map : Assoc Key Entry} (found : map.lookup key = some entry) :
    (map.erase key).keys.length + 1 = map.keys.length := by
  have sizes := (Lib.entries_perm_erase found).length_eq
  show (map.erase key).entries.keys.length + 1 = map.entries.keys.length
  unfold List.keys
  rw [List.length_map, List.length_map, sizes, List.length_cons]

theorem oldest_remove (plan : Plan Key) (full : capacity < inner.entries.keys.length) :
    ∃ key entry last, oldest plan inner.entries = some key ∧
      inner.remove key = some (entry, last) := by
  have some_key : ∃ key, oldest plan inner.entries = some key := by
    rw [← Option.ne_none_iff_exists']
    intro nothing
    have empty := List.argmin_eq_none.mp nothing
    have sizes := (plan.perm inner.entries.keys).length_eq
    rw [empty] at sizes
    rw [← sizes] at full
    exact absurd full (Nat.not_lt_zero _)
  obtain ⟨key, least⟩ := some_key
  have member : key ∈ inner.entries.keys := (plan.perm _).mem_iff.mp (List.argmin_mem least)
  obtain ⟨entry, found⟩ := Option.isSome_iff_exists.mp
    (AList.lookup_isSome.mpr (AList.mem_keys.mpr member))
  exact ⟨key, entry, _, least, remove_eq_some.mpr ⟨found, rfl⟩⟩

/-- Every round of the loop takes one entry. -/
theorem length_shrink (plan : Plan Key) (rounds : Nat) (inner : Inner)
    (enough : inner.entries.keys.length ≤ capacity + rounds) :
    (shrink plan rounds inner).1.entries.keys.length ≤ capacity := by
  induction rounds generalizing inner with
  | zero => exact enough
  | succ rounds ih =>
    unfold shrink
    by_cases full : inner.entries.keys.length > capacity
    · rw [if_pos full]
      obtain ⟨key, entry, last, least, removed⟩ := oldest_remove plan full
      rw [least, Option.bind_some, removed]
      obtain ⟨found, rfl⟩ := remove_eq_some.mp removed
      have one := length_erase found
      refine ih _ ?_
      show (inner.entries.erase key).keys.length ≤ capacity + rounds
      omega
    · rw [if_neg full]
      exact not_lt.mp full

/-- **After an insertion** the cache is within its bound. -/
theorem length_insert_le (plan : Plan Key) (now : Instant) (inner : Inner) (key : Key) (sub : Str)
    (cached : Cached) :
    (insert plan now inner key sub cached).1.entries.keys.length ≤ capacity := by
  unfold insert
  exact length_shrink plan _ _ (Nat.le_add_left _ _)

/-- `min_by_key` finds an entry no newer than any other. -/
theorem oldest_le {plan : Plan Key} {other : Key} {entry kept : Entry}
    (least : oldest plan inner.entries = some key) (found : inner.entries.lookup key = some entry)
    (present : inner.entries.lookup other = some kept) : entry.inserted ≤ kept.inserted := by
  have member : other ∈ plan.arrange inner.entries.keys := by
    refine (plan.perm _).mem_iff.mpr (AList.mem_keys.mp (AList.lookup_isSome.mp ?_))
    rw [present]
    rfl
  have least := List.le_of_mem_argmin member least
  rw [found, present] at least
  exact least

/-- **The entries that leave for the bound** are no newer than those that stay. -/
theorem shrink_oldest (plan : Plan Key) (rounds : Nat) (inner : Inner) :
    ∀ victim ∈ (shrink plan rounds inner).2, ∀ other kept,
      (shrink plan rounds inner).1.entries.lookup other = some kept →
        victim.inserted ≤ kept.inserted := by
  induction rounds generalizing inner with
  | zero =>
    intro victim member
    cases member
  | succ rounds ih =>
    unfold shrink
    by_cases full : inner.entries.keys.length > capacity
    · rw [if_pos full]
      obtain ⟨key, entry, last, least, removed⟩ := oldest_remove plan full
      rw [least, Option.bind_some, removed]
      intro victim member other kept present
      rcases List.mem_cons.mp member with rfl | later
      · have before := lookup_of_leaves (shrink_leaves plan rounds last) present
        obtain ⟨found, rfl⟩ := remove_eq_some.mp removed
        exact oldest_le least found (Lib.lookup_erase_eq_some.mp before).2
      · exact ih last victim later other kept present
    · rw [if_neg full]
      intro victim member
      cases member

/-- An insertion lets the key's old entry go, and after it the victims of the bound. -/
theorem insert_oldest (plan : Plan Key) (now : Instant) (inner : Inner) (key : Key) (sub : Str)
    (cached : Cached) : ∃ victims,
      (insert plan now inner key sub cached).2 = (inner.entries.lookup key).toList ++ victims ∧
      ∀ victim ∈ victims, ∀ other kept,
        (insert plan now inner key sub cached).1.entries.lookup other = some kept →
          victim.inserted ≤ kept.inserted := by
  unfold insert
  cases removed : inner.remove key with
  | none =>
    rw [remove_eq_none.mp removed]
    exact ⟨_, rfl, shrink_oldest plan _ _⟩
  | some pair =>
    obtain ⟨old, middle⟩ := pair
    rw [(remove_eq_some.mp removed).1]
    exact ⟨_, rfl, shrink_oldest plan _ _⟩

/-! ### Over a run -/

variable {http : HeaderText} {pathHash : Str → UInt64} {state state' : State} {out : List Seen}

/-- **One step** keeps the two maps inverse. -/
theorem Inner.Represented.step {label : Label} (represented : state.inner.Represented)
    (stepped : step http pathHash state label = some (state', out)) :
    state'.inner.Represented := by
  cases label with
  | insert key sub cached plan =>
    obtain ⟨_, rfl⟩ := step_insert stepped
    exact represented.insert
  | answer request cached now seen =>
    obtain ⟨_, ⟨inner, done, rfl⟩ | ⟨_, rfl⟩⟩ := step_answer stepped
    · obtain ⟨key, _, done⟩ := Option.bind_eq_some_iff.mp done
      exact represented.count done
    · exact represented
  | walk job scope plan =>
    obtain ⟨_, _, rfl⟩ := step_walk stepped
    exact represented
  | evict job =>
    obtain ⟨_, key, keys, _, ⟨_, rfl⟩ | ⟨entry, inner, removed, rfl⟩⟩ := step_evict stepped
    · exact represented
    · exact represented.remove removed
  | record row =>
    obtain ⟨_, _, _, rfl⟩ := step_record stepped
    exact represented
  | receive stored =>
    obtain ⟨_, _, _, _, rfl⟩ := step_receive stepped
    exact represented
  | swap live =>
    cases stepped
    exact represented
  | tick elapsed =>
    cases stepped
    exact represented

theorem represented_of_run {allowed : State → Label → Prop} {trace : List Seen}
    (run : Run (Cache.step http pathHash) allowed .init trace state) : state.inner.Represented := by
  induction run with
  | refl => exact represented_default
  | next _ _ stepped represented => exact represented.step stepped

/-! ### A walk that nothing interleaves with -/

/-- The steps of `drop_sub`: the snapshot, and one eviction a key. -/
def dropSub (job : Nat) (sub : Str) (plan : Plan Key) (keys : Nat) : List Label :=
  .walk job (.ofSub sub) plan :: List.replicate keys (.evict job)

/-- A walk evicts the first of its keys. -/
theorem exists_step_evict {job : Nat} {first : Key} {keys : List Key}
    (todo : state.jobs job = first :: keys) :
    ∃ next, Cache.step http pathHash state (.evict job) = some (next, []) ∧ next.jobs job = keys ∧
      ∀ key entry, next.inner.entries.lookup key = some entry ↔
        key ≠ first ∧ state.inner.entries.lookup key = some entry := by
  cases removed : state.inner.remove first with
  | none =>
    refine ⟨{ state with jobs := Function.update state.jobs job keys }, ?_,
      Function.update_self .., fun key entry => ⟨fun found => ⟨?_, found⟩, fun both => both.2⟩⟩
    · simp only [Cache.step, todo, removed]
    · rintro rfl
      have found : state.inner.entries.lookup key = some entry := found
      rw [remove_eq_none.mp removed] at found
      cases found
  | some pair =>
    obtain ⟨entry, inner⟩ := pair
    refine ⟨{ state with
      inner := inner
      jobs := Function.update state.jobs job keys
      rows := state.rows ++ flush http entry }, ?_, Function.update_self .., fun key other => ?_⟩
    · simp only [Cache.step, todo, removed]
    · obtain ⟨_, rfl⟩ := remove_eq_some.mp removed
      exact Lib.lookup_erase_eq_some

/-- The entries left after the keys of a walk have been evicted are those under other keys. -/
theorem exec_evict {job : Nat} {keys : List Key} (todo : state.jobs job = keys) :
    ∃ last trace,
      exec (Cache.step http pathHash) state (List.replicate keys.length (.evict job)) =
        some (last, trace) ∧ last.jobs job = [] ∧
      ∀ key entry, last.inner.entries.lookup key = some entry ↔
        key ∉ keys ∧ state.inner.entries.lookup key = some entry := by
  induction keys generalizing state with
  | nil => exact ⟨state, [], rfl, todo, fun _ _ => (and_iff_right List.not_mem_nil).symm⟩
  | cons first keys ih =>
    obtain ⟨next, stepped, rest, after⟩ :=
      @exists_step_evict http pathHash state job first keys todo
    obtain ⟨last, trace, done, idle, left⟩ := ih rest
    refine ⟨last, [] ++ trace, Lib.exec_cons stepped done, idle, fun key entry => ?_⟩
    rw [left, after, List.mem_cons, not_or]
    constructor
    · rintro ⟨later, different, found⟩
      exact ⟨⟨different, later⟩, found⟩
    · rintro ⟨⟨different, later⟩, found⟩
      exact ⟨later, different, found⟩

/-- **A dropped subject** loses its entries, and nobody else's entry changes. -/
theorem exec_dropSub (represented : state.inner.Represented) {job : Nat} {sub : Str}
    {plan : Plan Key} (idle : state.jobs job = []) :
    ∃ last trace, exec (Cache.step http pathHash) state
        (dropSub job sub plan (ofSub state.inner.bySub sub).length) = some (last, trace) ∧
      last.jobs job = [] ∧
      ∀ key entry, last.inner.entries.lookup key = some entry ↔
        state.inner.entries.lookup key = some entry ∧ entry.sub ≠ sub := by
  have sizes := (plan.perm (ofSub state.inner.bySub sub)).length_eq
  obtain ⟨last, trace, done, finished, left⟩ := @exec_evict http pathHash { state with
    jobs := Function.update state.jobs job (plan.arrange (ofSub state.inner.bySub sub)) } job
    (plan.arrange (ofSub state.inner.bySub sub)) (Function.update_self ..)
  have stepped : Cache.step http pathHash state (.walk job (.ofSub sub) plan) = some ({ state with
      jobs := Function.update state.jobs job (plan.arrange (ofSub state.inner.bySub sub)) }, []) :=
    if_pos idle
  refine ⟨last, [] ++ trace, ?_, finished, fun key entry => ?_⟩
  · rw [← sizes]
    exact Lib.exec_cons stepped done
  · refine (left key entry).trans ?_
    rw [(plan.perm _).mem_iff, represented.exactly]
    constructor
    · rintro ⟨foreign, found⟩
      exact ⟨found, fun owner => foreign ⟨entry, found, owner⟩⟩
    · rintro ⟨found, foreign⟩
      refine ⟨?_, found⟩
      rintro ⟨other, present, owner⟩
      rw [found] at present
      obtain rfl := Option.some.inj present
      exact foreign owner

/-- **The representation of the cache**, in every state of every run: the sets of `by_sub` are the
keys of the entries by subject and none is empty; an insertion ends within the bound, and whoever
leaves for the bound was inserted no later than whoever stays; an undisturbed `drop_sub` takes the
entries of its subject and leaves every other entry as it is. -/
theorem representation {trace : List Seen}
    (run : Run (Cache.step http pathHash) (fun _ _ => True) .init trace state) :
    (∀ key sub, key ∈ ofSub state.inner.bySub sub ↔
      ∃ entry, state.inner.entries.lookup key = some entry ∧ entry.sub = sub) ∧
    (∀ sub, state.inner.bySub.lookup sub ≠ some []) ∧
    (∀ plan key sub cached,
      (insert plan state.now state.inner key sub cached).1.entries.keys.length ≤ capacity ∧
      ∃ victims, (insert plan state.now state.inner key sub cached).2 =
          (state.inner.entries.lookup key).toList ++ victims ∧
        ∀ victim ∈ victims, ∀ other kept,
          (insert plan state.now state.inner key sub cached).1.entries.lookup other = some kept →
            victim.inserted ≤ kept.inserted) ∧
    ∀ job sub plan, state.jobs job = [] →
      ∃ last trace, exec (Cache.step http pathHash) state
          (dropSub job sub plan (ofSub state.inner.bySub sub).length) = some (last, trace) ∧
        last.jobs job = [] ∧
        ∀ key entry, last.inner.entries.lookup key = some entry ↔
          state.inner.entries.lookup key = some entry ∧ entry.sub ≠ sub := by
  have represented := represented_of_run run
  refine ⟨represented.exactly, represented.inhabited, fun plan key sub cached => ?_, ?_⟩
  · exact ⟨length_insert_le plan _ _ key sub cached, insert_oldest plan _ _ key sub cached⟩
  · intro job sub plan idle
    exact exec_dropSub represented idle

end Representation

/-! ### Two subjects -/

namespace TwoSubjects

/-- The key of a session. -/
def key (session : BitVec 256) : Key := ⟨session, "wiki".toList⟩

/-- The data behind each of the entries. -/
def cached : Cached := ⟨Miss.member [], [], true, some 1⟩

/-- A hash that tells no paths apart. -/
def pathHash : Str → UInt64 := fun _ => 0

/-- A fresh entry of a subject. -/
def entry (session : BitVec 256) (sub : Str) : Entry :=
  freshEntry 0 (key session) sub cached

/-- One session of each subject. -/
def inner : Inner :=
  (Inner.default.enter (key 1) (entry 1 "u1".toList)).enter (key 2) (entry 2 "u2".toList)

theorem run_inner :
    Run (step HeaderText.documented pathHash) (fun _ _ => True) .init []
      { State.init with inner := inner } := by
  have first : step HeaderText.documented pathHash .init
      (.insert (key 1) "u1".toList cached (Plan.table Key)) = some
        ({ State.init with inner := Inner.default.enter (key 1) (entry 1 "u1".toList) }, []) := rfl
  have second : step HeaderText.documented pathHash
      { State.init with inner := Inner.default.enter (key 1) (entry 1 "u1".toList) }
      (.insert (key 2) "u2".toList cached (Plan.table Key)) =
        some ({ State.init with inner := inner }, []) := rfl
  exact (Run.single trivial first).next trivial second

end TwoSubjects

open TwoSubjects in
/-- The kill switch of one subject, and the other one's entry. -/
theorem representation_two :
    ∃ last trace, exec (step HeaderText.documented pathHash) { State.init with inner := inner }
        (dropSub 0 "u1".toList (Plan.table Key) 1) = some (last, trace) ∧
      last.inner.entries.lookup (key 1) = none ∧
      last.inner.entries.lookup (key 2) = some (entry 2 "u2".toList) := by
  obtain ⟨_, _, _, drops⟩ := representation run_inner
  obtain ⟨last, trace, done, _, left⟩ := drops 0 "u1".toList (Plan.table Key) rfl
  refine ⟨last, trace, done, ?_, (left _ _).mpr ⟨rfl, by decide⟩⟩
  cases found : last.inner.entries.lookup (key 1) with
  | none => rfl
  | some kept =>
    obtain ⟨before, foreign⟩ := (left _ _).mp found
    have own : kept = entry 1 "u1".toList := (Option.some.inj before).symm
    rw [own] at foreign
    exact absurd rfl foreign

end OpenBerat.Cache
