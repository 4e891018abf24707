/-
**What becomes of an entry.**

Whatever the cache does, an entry found later is an entry found before or the one just inserted:
counting changes the counters only, and everything else takes entries away. The set of keys that
`by_sub` keeps for a subject has every entry of that subject in it.

* `lookup_of_insert`, `within_of_answer`, `within_of_background`: entries through one step.
* `Inner.Indexed`: `drop_sub` finds every entry of its subject.
* `lookup_of_step`, `Inner.Indexed.step`, `walk_of_step`, `jobs_of_step`: the same through any step,
  and what a walk has still before it.
-/

import OpenBerat.Cache.Machine

namespace OpenBerat.Cache

open Lib (Assoc Plan)

/-- The same entry, up to what has been counted in it. -/
structure Entry.Like (entry other : Entry) : Prop where
  sub : entry.sub = other.sub
  slug : entry.slug = other.slug
  cached : entry.cached = other.cached
  inserted : entry.inserted = other.inserted

theorem Entry.Like.refl (entry : Entry) : entry.Like entry :=
  ⟨rfl, rfl, rfl, rfl⟩

/-- Every entry of the second map is one of the first, up to what has been counted in it. -/
def Within (inner last : Inner) : Prop :=
  ∀ key entry, last.entries.lookup key = some entry →
    ∃ earlier, inner.entries.lookup key = some earlier ∧ entry.Like earlier

theorem Within.refl (inner : Inner) : Within inner inner :=
  fun _ entry found => ⟨entry, found, .refl entry⟩

variable {inner middle last : Inner} {key : Key}

theorem within_of_remove {entry : Entry} (removed : inner.remove key = some (entry, last)) :
    Within inner last := by
  obtain ⟨_, rfl⟩ := remove_eq_some.mp removed
  intro other value found
  exact ⟨value, (Lib.lookup_erase_eq_some.mp found).2, .refl value⟩

theorem lookup_of_leaves {leaving : List Entry} (left : Leaves inner leaving last) {entry : Entry}
    (found : last.entries.lookup key = some entry) : inner.entries.lookup key = some entry := by
  induction left with
  | none => exact found
  | one removed _ ih =>
    obtain ⟨_, rfl⟩ := remove_eq_some.mp removed
    exact (Lib.lookup_erase_eq_some.mp (ih found)).2

/-- **After an insertion** an entry is the fresh one or an old one. -/
theorem lookup_of_insert {plan : Plan Key} {now : Instant} {sub : Str} {cached : Cached}
    {other : Key} {entry : Entry}
    (found : (insert plan now inner key sub cached).1.entries.lookup other = some entry) :
    (other = key ∧ entry = freshEntry now key sub cached) ∨
      (other ≠ key ∧ inner.entries.lookup other = some entry) := by
  obtain ⟨middle, replaced, victims, first, absent, second, _⟩ :=
    insert_eq plan now inner key sub cached
  rcases Lib.lookup_insert_eq_some.mp (lookup_of_leaves second found) with
    ⟨same, rfl⟩ | ⟨different, old⟩
  · exact Or.inl ⟨same, rfl⟩
  · exact Or.inr ⟨different, lookup_of_leaves first old⟩

variable {http : HeaderText} {pathHash : Str → UInt64} {state state' : State} {out : List Seen}

/-- A decision is counted in an entry that stays, or in none. -/
theorem within_of_answer {request : Subrequest} {cached : Cached} {now seen : DateTime}
    (stepped : step http pathHash state (.answer request cached now seen) = some (state', out)) :
    Within state.inner state'.inner ∧ state'.subscribed = state.subscribed ∧
      state'.jobs = state.jobs ∧ state'.now = state.now := by
  obtain ⟨_, ⟨inner, done, rfl⟩ | ⟨_, rfl⟩⟩ := step_answer stepped
  · refine ⟨?_, rfl, rfl, rfl⟩
    obtain ⟨key, _, done⟩ := Option.bind_eq_some_iff.mp done
    unfold count at done
    split at done
    · cases done
    · rename_i before present
      cases done
      intro other entry found
      rcases Lib.lookup_insert_eq_some.mp found with ⟨rfl, rfl⟩ | ⟨_, old⟩
      · exact ⟨before, present, ⟨rfl, rfl, rfl, rfl⟩⟩
      · exact ⟨entry, old, .refl entry⟩
  · exact ⟨.refl _, rfl, rfl, rfl⟩

/-- The steps that no request takes: sweeps, dropped subjects, flushes, the writer, the subscription
and the clock. -/
def Label.background : Label → Bool
  | .insert .. => false
  | .answer .. => false
  | _ => true

/-- Everything else only takes entries away. -/
theorem within_of_background {label : Label} (quiet : label.background = true)
    (stepped : step http pathHash state label = some (state', out)) :
    Within state.inner state'.inner ∧ state.now ≤ state'.now := by
  cases label with
  | insert key sub cached plan => cases quiet
  | answer request cached now seen => cases quiet
  | walk job scope plan =>
    obtain ⟨_, _, rfl⟩ := step_walk stepped
    exact ⟨.refl _, le_refl _⟩
  | evict job =>
    obtain ⟨_, key, keys, _, ⟨_, rfl⟩ | ⟨entry, inner, removed, rfl⟩⟩ := step_evict stepped
    · exact ⟨.refl _, le_refl _⟩
    · exact ⟨within_of_remove removed, le_refl _⟩
  | record row =>
    obtain ⟨_, _, _, rfl⟩ := step_record stepped
    exact ⟨.refl _, le_refl _⟩
  | receive stored =>
    obtain ⟨_, _, _, _, rfl⟩ := step_receive stepped
    exact ⟨.refl _, le_refl _⟩
  | swap live =>
    cases stepped
    exact ⟨.refl _, le_refl _⟩
  | tick elapsed =>
    cases stepped
    exact ⟨.refl _, Nat.le_add_right _ _⟩

/-! ### The reverse index -/

/-- Every entry is in the set of its subject. -/
def Inner.Indexed (inner : Inner) : Prop :=
  ∀ key entry, inner.entries.lookup key = some entry →
    ∃ keys, inner.bySub.lookup entry.sub = some keys ∧ key ∈ keys

theorem mem_forgetSub {bySub : Assoc Str (List Key)} {sub other : Str} {gone : Key}
    {keys : List Key}
    (found : bySub.lookup other = some keys) (member : key ∈ keys) (different : key ≠ gone) :
    ∃ keys, (forgetSub bySub sub gone).lookup other = some keys ∧ key ∈ keys := by
  unfold forgetSub
  cases known : bySub.lookup sub with
  | none => exact ⟨keys, found, member⟩
  | some listed =>
    dsimp only
    by_cases same : other = sub
    · subst same
      rw [found] at known
      obtain rfl := Option.some.inj known
      have kept : key ∈ keys.filter (· ≠ gone) :=
        List.mem_filter.mpr ⟨member, decide_eq_true different⟩
      rw [if_neg (List.ne_nil_of_mem kept)]
      exact ⟨_, AList.lookup_insert _, kept⟩
    · by_cases empty : listed.filter (· ≠ gone) = []
      · rw [if_pos empty, AList.lookup_erase_ne same]
        exact ⟨keys, found, member⟩
      · rw [if_neg empty, AList.lookup_insert_ne same]
        exact ⟨keys, found, member⟩

theorem Inner.Indexed.remove {entry : Entry} (indexed : inner.Indexed)
    (removed : inner.remove key = some (entry, last)) : last.Indexed := by
  obtain ⟨_, rfl⟩ := remove_eq_some.mp removed
  intro other value found
  obtain ⟨different, old⟩ := Lib.lookup_erase_eq_some.mp found
  obtain ⟨keys, known, member⟩ := indexed other value old
  exact mem_forgetSub known member different

theorem Inner.Indexed.leaves {leaving : List Entry} (indexed : inner.Indexed)
    (left : Leaves inner leaving last) : last.Indexed := by
  induction left with
  | none => exact indexed
  | one removed _ ih => exact ih (indexed.remove removed)

theorem Inner.Indexed.enter {entry : Entry} (indexed : inner.Indexed) :
    (inner.enter key entry).Indexed := by
  intro other value found
  unfold Inner.enter at found ⊢
  have kept : ∀ {sub keys}, inner.bySub.lookup sub = some keys → other ∈ keys →
      ∃ keys, (inner.bySub.insert entry.sub
        (((inner.bySub.lookup entry.sub).getD []).insert key)).lookup sub = some keys ∧
          other ∈ keys := by
    intro sub keys known member
    by_cases same : sub = entry.sub
    · subst same
      refine ⟨_, AList.lookup_insert _, ?_⟩
      rw [known]
      exact List.mem_insert_of_mem member
    · rw [AList.lookup_insert_ne same]
      exact ⟨keys, known, member⟩
  rcases Lib.lookup_insert_eq_some.mp found with ⟨rfl, rfl⟩ | ⟨_, old⟩
  · exact ⟨_, AList.lookup_insert _, List.mem_insert_self⟩
  · obtain ⟨keys, known, member⟩ := indexed other value old
    exact kept known member

theorem Inner.Indexed.insert {plan : Plan Key} {now : Instant} {sub : Str} {cached : Cached}
    (indexed : inner.Indexed) : (insert plan now inner key sub cached).1.Indexed := by
  obtain ⟨middle, replaced, victims, first, _, second, _⟩ := insert_eq plan now inner key sub cached
  exact ((indexed.leaves first).enter).leaves second

/-- The set that `drop_sub` walks over has every entry of the subject. -/
theorem Inner.Indexed.snapshot {plan : Plan Key} {now : Instant} {entry : Entry}
    (indexed : inner.Indexed) (found : inner.entries.lookup key = some entry) :
    key ∈ snapshot plan now inner (.ofSub entry.sub) := by
  obtain ⟨keys, known, member⟩ := indexed key entry found
  show key ∈ plan.arrange ((inner.bySub.lookup entry.sub).getD [])
  rw [known]
  exact (plan.perm _).mem_iff.mpr member

/-! ### Any step -/

/-- **An entry found after a step** is an old one or the one that the step inserts. -/
theorem lookup_of_step {label : Label}
    (stepped : step http pathHash state label = some (state', out))
    {entry : Entry} (found : state'.inner.entries.lookup key = some entry) :
    (∃ earlier, state.inner.entries.lookup key = some earlier ∧ entry.Like earlier) ∨
      ∃ sub cached plan, label = .insert key sub cached plan ∧ entry.sub = sub := by
  by_cases quiet : label.background = true
  · exact Or.inl ((within_of_background quiet stepped).1 key entry found)
  · cases label with
    | insert other sub cached plan =>
      obtain ⟨_, rfl⟩ := step_insert stepped
      rcases lookup_of_insert found with ⟨rfl, rfl⟩ | ⟨_, old⟩
      · exact Or.inr ⟨sub, cached, plan, rfl, rfl⟩
      · exact Or.inl ⟨entry, old, .refl entry⟩
    | answer request cached now seen =>
      exact Or.inl ((within_of_answer stepped).1 key entry found)
    | _ => exact absurd rfl quiet

theorem Inner.Indexed.step {label : Label} (indexed : state.inner.Indexed)
    (stepped : step http pathHash state label = some (state', out)) : state'.inner.Indexed := by
  cases label with
  | insert key sub cached plan =>
    obtain ⟨_, rfl⟩ := step_insert stepped
    exact indexed.insert
  | answer request cached now seen =>
    obtain ⟨_, ⟨inner, done, rfl⟩ | ⟨_, rfl⟩⟩ := step_answer stepped
    · obtain ⟨key, _, done⟩ := Option.bind_eq_some_iff.mp done
      unfold count at done
      split at done
      · cases done
      · rename_i before present
        cases done
        intro other entry found
        rcases Lib.lookup_insert_eq_some.mp found with ⟨rfl, rfl⟩ | ⟨_, old⟩
        · exact indexed other before present
        · exact indexed other entry old
    · exact indexed
  | evict job =>
    obtain ⟨_, _, _, _, ⟨_, rfl⟩ | ⟨_, _, removed, rfl⟩⟩ := step_evict stepped
    · exact indexed
    · exact indexed.remove removed
  | walk job scope plan =>
    obtain ⟨_, _, rfl⟩ := step_walk stepped
    exact indexed
  | record row =>
    obtain ⟨_, _, _, rfl⟩ := step_record stepped
    exact indexed
  | receive stored =>
    obtain ⟨_, _, _, _, rfl⟩ := step_receive stepped
    exact indexed
  | swap live =>
    cases stepped
    exact indexed
  | tick elapsed =>
    cases stepped
    exact indexed

/-- **A key that a walk has before it** stays before it or has no entry any more. -/
theorem walk_of_step {label : Label} {job : Nat}
    (other : ∀ scope plan, label ≠ .walk job scope plan)
    (stepped : step http pathHash state label = some (state', out))
    (member : key ∈ state.jobs job) :
    key ∈ state'.jobs job ∨ state'.inner.entries.lookup key = none := by
  cases label with
  | insert other sub cached plan =>
    obtain ⟨_, rfl⟩ := step_insert stepped
    exact Or.inl member
  | answer request cached now seen =>
    obtain ⟨_, _, jobs, _⟩ := within_of_answer stepped
    rw [jobs]
    exact Or.inl member
  | walk walking scope plan =>
    obtain ⟨_, _, rfl⟩ := step_walk stepped
    refine Or.inl ?_
    show key ∈ Function.update state.jobs walking _ job
    rw [Function.update_of_ne fun same =>
      other scope plan (congrArg (Label.walk · scope plan) same.symm)]
    exact member
  | evict evicting =>
    obtain ⟨_, first, keys, todo, gone⟩ := step_evict stepped
    have rest : key = first ∨ key ∈ Function.update state.jobs evicting keys job := by
      by_cases mine : job = evicting
      · subst mine
        rw [todo] at member
        rw [Function.update_self]
        exact List.mem_cons.mp member
      · rw [Function.update_of_ne mine]
        exact Or.inr member
    rcases gone with ⟨removed, rfl⟩ | ⟨entry, inner, removed, rfl⟩
    · rcases rest with rfl | later
      · exact Or.inr (remove_eq_none.mp removed)
      · exact Or.inl later
    · rcases rest with rfl | later
      · refine Or.inr ?_
        obtain ⟨_, rfl⟩ := remove_eq_some.mp removed
        exact AList.lookup_erase ..
      · exact Or.inl later
  | record row =>
    obtain ⟨_, _, _, rfl⟩ := step_record stepped
    exact Or.inl member
  | receive stored =>
    obtain ⟨_, _, _, _, rfl⟩ := step_receive stepped
    exact Or.inl member
  | swap live =>
    cases stepped
    exact Or.inl member
  | tick elapsed =>
    cases stepped
    exact Or.inl member

/-- A walk gets no keys but at its start. -/
theorem jobs_of_step {label : Label} {job : Nat}
    (other : ∀ scope plan, label ≠ .walk job scope plan)
    (stepped : step http pathHash state label = some (state', out))
    (member : key ∈ state'.jobs job) :
    key ∈ state.jobs job := by
  cases label with
  | insert other sub cached plan =>
    obtain ⟨_, rfl⟩ := step_insert stepped
    exact member
  | answer request cached now seen =>
    obtain ⟨_, _, jobs, _⟩ := within_of_answer stepped
    rwa [jobs] at member
  | walk walking scope plan =>
    obtain ⟨_, _, rfl⟩ := step_walk stepped
    have kept : key ∈ Function.update state.jobs walking _ job := member
    rwa [Function.update_of_ne fun same => other scope plan
      (congrArg (Label.walk · scope plan) same.symm)] at kept
  | evict evicting =>
    obtain ⟨_, first, keys, todo, gone⟩ := step_evict stepped
    have left : key ∈ Function.update state.jobs evicting keys job := by
      rcases gone with ⟨_, rfl⟩ | ⟨_, _, _, rfl⟩
      · exact member
      · exact member
    by_cases mine : job = evicting
    · subst mine
      rw [Function.update_self] at left
      rw [todo]
      exact List.mem_cons_of_mem _ left
    · rwa [Function.update_of_ne mine] at left
  | record row =>
    obtain ⟨_, _, _, rfl⟩ := step_record stepped
    exact member
  | receive stored =>
    obtain ⟨_, _, _, _, rfl⟩ := step_receive stepped
    exact member
  | swap live =>
    cases stepped
    exact member
  | tick elapsed =>
    cases stepped
    exact member

end OpenBerat.Cache
