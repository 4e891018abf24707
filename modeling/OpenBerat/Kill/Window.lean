/-
**The kill's only window.**

Once the kill has deleted a session's key, oauth2-proxy names nobody for it, so no entry of it is
inserted any more, unless a request had its answer already. An instance that has dropped the sub, or
emptied its cache before it raised the flag again, has no entry of it left.

* `kept_of_step`: what a step of an instance does to its entries and to the subscriber's walk.
* `grounded_step`: whose sessions and entries these are, over any run.
* `shut_step`: what holds behind the deletion.
* `stays_out`: a killed session is answered from an instance only that was still to hear of the kill
  when the request last looked at its flag.
* `second_user_answered`: a session that oauth2-proxy has named two users for is answered all the
  same when the first of them is killed.
-/

import OpenBerat.Kill.Fleet
import OpenBerat.Provenance

namespace OpenBerat.Fleet

open Decide (Incoming authenticate)
open Index (Fate)
open Instance (Origin Presented Presents Stage advance_acquire advance_answer advance_authenticated
  advance_cancel advance_flag advance_indexed advance_insert advance_loaded advance_read missed
  originOf step_arrive step_cache step_move)
open Lib (Everywhere Plan Run everywhere_append everywhere_concat everywhere_nil exec guarded)

section Window

variable {lib : Libraries}

/-! ### One instance -/

/-- The label an event belongs to. -/
def Fits (label : Instance.Label) : Instance.Event → Prop
  | .arrived origin => ∃ headers, label = .arrive origin.request headers
  | .consulted origin _ => label = .move origin.request .flag
  | .answered origin _ _ => ∃ now seen, label = .move origin.request (.answer now seen)
  | _ => True

variable {state next : Instance.State lib} {label : Instance.Label} {out : List Instance.Event}

theorem fits_of_step (stepped : Instance.step state label = some (next, out)) :
    ∀ event ∈ out, Fits label event := by
  cases label with
  | arrive request headers =>
    obtain ⟨_, ⟨_, _, rfl, _⟩ | ⟨_, _, _, rfl, _, _⟩⟩ := step_arrive stepped
    · exact List.forall_mem_singleton.mpr trivial
    · exact List.forall_mem_singleton.mpr ⟨headers, rfl⟩
  | cache label =>
    obtain ⟨_, seen, _, _, rfl, _⟩ := step_cache stepped
    intro event member
    obtain ⟨_, _, rfl⟩ := List.mem_map.mp member
    trivial
  | move request move =>
    obtain ⟨moved, advanced, rfl, _⟩ := step_move stepped
    cases move with
    | flag =>
      obtain ⟨_, _, _, ⟨_, rfl⟩ | ⟨_, rfl⟩⟩ := advance_flag advanced
      · exact List.forall_mem_singleton.mpr rfl
      · exact List.forall_mem_singleton.mpr rfl
    | read =>
      obtain ⟨_, _, _, ⟨_, _, _, _, rfl⟩ | ⟨_, rfl⟩⟩ := advance_read advanced
      · exact List.forall_mem_singleton.mpr trivial
      · exact fun _ member => nomatch member
    | acquire =>
      obtain ⟨_, _, _, _, _, rfl⟩ := advance_acquire advanced
      exact fun _ member => nomatch member
    | authenticated response =>
      obtain ⟨_, _, ⟨_, _, _, _, _, rfl⟩ | ⟨_, _, rfl⟩⟩ := advance_authenticated advanced
      · exact List.forall_mem_singleton.mpr trivial
      · exact List.forall_mem_singleton.mpr trivial
    | indexed ok =>
      obtain ⟨_, _, _, _, _, ⟨_, rfl⟩ | ⟨_, rfl⟩⟩ := advance_indexed advanced
      · exact List.forall_mem_singleton.mpr trivial
      · exact List.forall_mem_singleton.mpr trivial
    | loaded query =>
      obtain ⟨_, _, _, _, _, ⟨_, _, rfl⟩ | ⟨_, rfl⟩⟩ := advance_loaded advanced
      · exact List.forall_mem_singleton.mpr trivial
      · exact List.forall_mem_singleton.mpr trivial
    | insert plan =>
      obtain ⟨_, _, _, _, _, ⟨_, rfl⟩ | ⟨_, _, _, _, rfl⟩⟩ := advance_insert advanced
      · exact fun _ member => nomatch member
      · exact List.forall_mem_singleton.mpr trivial
    | answer now seen =>
      obtain ⟨_, _, _, _, out, _, _, rfl⟩ := advance_answer advanced
      refine List.forall_mem_append.mpr ⟨fun event member => ?_, ?_⟩
      · obtain ⟨_, _, rfl⟩ := List.mem_map.mp member
        trivial
      · exact List.forall_mem_singleton.mpr ⟨now, seen, rfl⟩
    | cancel =>
      obtain rfl := advance_cancel advanced
      exact fun _ member => nomatch member

/-- What a step leaves of the flag, the entries and the subscriber's walk. -/
structure Kept (state next : Instance.State lib) : Prop where
  flag : next.cache.subscribed = state.cache.subscribed
  entries : ∀ key entry, next.cache.inner.entries.lookup key = some entry →
    (∃ earlier, state.cache.inner.entries.lookup key = some earlier ∧ entry.sub = earlier.sub) ∨
      ∃ request incoming cached setCookie session,
        state.stages request = .filling incoming cached setCookie session ∧
        incoming.request.key = some key ∧ entry.sub = lib.http.text cached.identity.sub
  walk : ∀ key ∈ state.cache.jobs subscriberJob,
    key ∈ next.cache.jobs subscriberJob ∨ next.cache.inner.entries.lookup key = none
  indexed : state.cache.inner.Indexed → next.cache.inner.Indexed

/-- The label leaves the flag alone and begins no walk of the subscriber's. -/
def Restrained : Instance.Label → Prop
  | .cache (.swap _) => False
  | .cache (.walk job _ _) => job ≠ subscriberJob
  | _ => True

theorem restrained_of_free (alone : free label = true) : Restrained label := by
  unfold free at alone
  split at alone
  · trivial
  · cases alone
  · rename_i job _ _
    have later : killJob < job := of_decide_eq_true alone
    show job ≠ subscriberJob
    exact (Nat.lt_of_le_of_lt (Nat.zero_le _) later).ne'
  · rename_i other walk
    unfold Restrained
    split
    · exact absurd rfl (other _)
    · exact absurd rfl (walk _ _ _)
    · trivial

/-- A step that leaves the cache alone. -/
theorem Kept.same (cache : next.cache = state.cache) : Kept state next := by
  refine ⟨by rw [cache], fun key entry found => Or.inl ?_, fun key member => Or.inl ?_, ?_⟩
  · rw [cache] at found
    exact ⟨entry, found, rfl⟩
  · rw [cache]
    exact member
  · rw [cache]
    exact id

theorem kept_of_background {label : Cache.Label} {seen : List Cache.Seen} {cache : Cache.State}
    (quiet : label.background = true) (restrained : Restrained (.cache label))
    (stepped : Cache.step lib.http lib.pathHash state.cache label = some (cache, seen)) :
    Kept state { state with cache := cache } := by
  refine ⟨?_, fun key entry found => Or.inl ?_, fun key member => ?_,
    fun indexed => indexed.step stepped⟩
  · cases label with
    | insert key sub cached plan => cases quiet
    | answer request cached now seen => cases quiet
    | swap live => exact restrained.elim
    | walk job scope plan =>
      obtain ⟨_, _, rfl⟩ := Cache.step_walk stepped
      rfl
    | evict job =>
      obtain ⟨_, _, _, _, ⟨_, rfl⟩ | ⟨_, _, _, rfl⟩⟩ := Cache.step_evict stepped
      · rfl
      · rfl
    | record row =>
      obtain ⟨_, _, _, rfl⟩ := Cache.step_record stepped
      rfl
    | receive stored =>
      obtain ⟨_, _, _, _, rfl⟩ := Cache.step_receive stepped
      rfl
    | tick elapsed =>
      cases stepped
      rfl
  · obtain ⟨earlier, old, like⟩ := (Cache.within_of_background quiet stepped).1 key entry found
    exact ⟨earlier, old, like.sub⟩
  · refine Cache.walk_of_step ?_ stepped member
    rintro scope plan rfl
    exact restrained rfl

/-- **One step of an instance** left to itself, or of an index write. -/
theorem kept_of_step (restrained : Restrained label)
    (stepped : Instance.step state label = some (next, out)) : Kept state next := by
  cases label with
  | arrive request headers =>
    obtain ⟨_, ⟨_, _, _, rfl⟩ | ⟨_, _, _, _, _, rfl⟩⟩ := step_arrive stepped
    · exact .same rfl
    · exact .same rfl
  | cache label =>
    obtain ⟨cache, seen, quiet, taken, _, rfl⟩ := step_cache stepped
    exact kept_of_background quiet restrained taken
  | move request move =>
    obtain ⟨moved, advanced, _, rfl⟩ := step_move stepped
    cases move with
    | flag =>
      obtain ⟨_, _, _, ⟨_, rfl⟩ | ⟨_, rfl⟩⟩ := advance_flag advanced
      · exact .same rfl
      · exact .same rfl
    | read =>
      obtain ⟨_, _, _, ⟨_, _, _, _, rfl⟩ | ⟨_, rfl⟩⟩ := advance_read advanced
      · exact .same rfl
      · exact .same rfl
    | acquire =>
      obtain ⟨_, _, _, _, _, rfl⟩ := advance_acquire advanced
      exact .same rfl
    | authenticated response =>
      obtain ⟨_, _, ⟨_, _, _, _, _, rfl⟩ | ⟨_, _, rfl⟩⟩ := advance_authenticated advanced
      · exact .same rfl
      · exact .same rfl
    | indexed ok =>
      obtain ⟨_, _, _, _, _, ⟨_, rfl⟩ | ⟨_, rfl⟩⟩ := advance_indexed advanced
      · exact .same rfl
      · exact .same rfl
    | loaded query =>
      obtain ⟨_, _, _, _, _, ⟨_, _, rfl⟩ | ⟨_, rfl⟩⟩ := advance_loaded advanced
      · exact .same rfl
      · exact .same rfl
    | insert plan =>
      obtain ⟨incoming, cached, setCookie, session, stage,
        ⟨_, rfl⟩ | ⟨key, cache, keyed, inserted, rfl⟩⟩ := advance_insert advanced
      · exact .same rfl
      · obtain ⟨_, rfl⟩ := Cache.step_insert inserted
        refine ⟨rfl, fun other entry found => ?_, fun _ member => Or.inl member,
          fun indexed => indexed.insert⟩
        rcases Cache.lookup_of_insert found with ⟨rfl, rfl⟩ | ⟨_, old⟩
        · exact Or.inr ⟨request, incoming, cached, setCookie, session, stage, keyed, rfl⟩
        · exact Or.inl ⟨entry, old, rfl⟩
    | answer now seen =>
      obtain ⟨incoming, cached, setCookie, cache, _, _, counted, rfl⟩ := advance_answer advanced
      obtain ⟨within, flag, jobs, _⟩ := Cache.within_of_answer counted
      refine ⟨flag, fun key entry found => Or.inl ?_, fun key member => Or.inl ?_,
        fun indexed => indexed.step counted⟩
      · obtain ⟨earlier, old, like⟩ := within key entry found
        exact ⟨earlier, old, like.sub⟩
      · show key ∈ cache.jobs subscriberJob
        rw [jobs]
        exact member
    | cancel =>
      obtain rfl := advance_cancel advanced
      exact .same rfl

/-! ### Whose entries these are -/

variable (owner : Str → Str) (presented : Set Str)

/-- The session key of a cookie value. -/
def sessionOf (lib : Libraries) (value : Str) : Option Str :=
  lib.base64.sessionKey value cookieName

/-- A request past oauth2-proxy has the identity of its session's user. -/
def StageOwned : Stage lib → Prop
  | .indexing incoming identity _ session =>
    incoming.session = some session ∧ lib.http.text identity.sub = owner session
  | .loading incoming identity _ session =>
    incoming.session = some session ∧ lib.http.text identity.sub = owner session
  | .filling incoming cached _ session =>
    incoming.session = some session ∧ lib.http.text cached.identity.sub = owner session
  | _ => True

/-- Requests and entries belong to the users of their sessions. -/
structure Owned (state : Instance.State lib) : Prop where
  presents : ∀ request, Presents presented (state.stages request)
  stages : ∀ request, StageOwned owner (state.stages request)
  entries : ∀ key entry, state.cache.inner.entries.lookup key = some entry →
    ∃ value ∈ presented, ∃ session, key.cookie = lib.sha256 (asBytes value) ∧
      sessionOf lib value = some session ∧ entry.sub = owner session
  indexed : state.cache.inner.Indexed

/-- oauth2-proxy has an identity for a session that is not deleted, and that of its user. -/
def Answers (deleted : List Str) (state : Instance.State lib) : Instance.Label → Prop
  | .move request (.authenticated response) => ∀ incoming session identity setCookie,
      state.stages request = .authenticating incoming → incoming.session = some session →
      authenticate response = .verified identity setCookie →
        session ∉ deleted ∧ lib.http.text identity.sub = owner session
  | _ => True

/-- oauth2-proxy has an identity for no session that is deleted, whoever's it is. -/
def Forgets (deleted : List Str) (state : Instance.State lib) : Instance.Label → Prop
  | .move request (.authenticated response) => ∀ incoming session identity setCookie,
      state.stages request = .authenticating incoming → incoming.session = some session →
      authenticate response = .verified identity setCookie → session ∉ deleted
  | _ => True

variable {owner presented} {deleted : List Str}

theorem stageOwned_missed {incoming : Incoming lib} {locked : Bool} :
    StageOwned owner (missed incoming locked) := by
  cases locked with
  | true => trivial
  | false => trivial

/-- No request is left, or the same one. -/
theorem presents_of_advance {request : Nat} {move : Instance.Move} {stage : Stage lib}
    {moved : Instance.Moved lib} (presents : Presents presented stage)
    (advanced : Instance.advance state request move stage = some moved) :
    Presents presented moved.stage := by
  have gone : Presents presented (.done : Stage lib) := fun _ shown => nomatch shown
  have missing : ∀ incoming locked, stage.incoming? = some incoming →
      Presents presented (missed incoming locked) := by
    intro incoming locked shown other same
    rw [Instance.incoming?_missed] at same
    exact presents other (shown.trans same)
  cases move with
  | flag =>
    obtain ⟨incoming, locked, rfl, ⟨_, rfl⟩ | ⟨_, rfl⟩⟩ := advance_flag advanced
    · exact presents
    · exact missing incoming locked rfl
  | read =>
    obtain ⟨incoming, locked, rfl, ⟨_, _, _, _, rfl⟩ | ⟨_, rfl⟩⟩ := advance_read advanced
    · exact presents
    · exact missing incoming locked rfl
  | acquire =>
    obtain ⟨_, _, rfl, _, _, rfl⟩ := advance_acquire advanced
    exact presents
  | authenticated response =>
    obtain ⟨_, rfl, ⟨_, _, _, _, _, rfl⟩ | ⟨_, _, rfl⟩⟩ := advance_authenticated advanced
    · exact presents
    · exact gone
  | indexed ok =>
    obtain ⟨_, _, _, _, rfl, ⟨_, rfl⟩ | ⟨_, rfl⟩⟩ := advance_indexed advanced
    · exact presents
    · exact gone
  | loaded query =>
    obtain ⟨_, _, _, _, rfl, ⟨_, _, rfl⟩ | ⟨_, rfl⟩⟩ := advance_loaded advanced
    · exact presents
    · exact gone
  | insert plan =>
    obtain ⟨_, _, _, _, rfl, ⟨_, rfl⟩ | ⟨_, _, _, _, rfl⟩⟩ := advance_insert advanced
    · exact presents
    · exact presents
  | answer now seen =>
    obtain ⟨_, _, _, _, _, rfl, _, rfl⟩ := advance_answer advanced
    exact gone
  | cancel =>
    obtain rfl := advance_cancel advanced
    exact gone

/-- **The next stage of a request** has what the stage before had, or what oauth2-proxy says. -/
theorem stageOwned_of_advance {request : Nat} {move : Instance.Move} {moved : Instance.Moved lib}
    (before : StageOwned owner (state.stages request))
    (answers : Answers owner deleted state (.move request move))
    (advanced : Instance.advance state request move (state.stages request) = some moved) :
    StageOwned owner moved.stage := by
  cases move with
  | flag =>
    obtain ⟨incoming, locked, _, ⟨_, rfl⟩ | ⟨_, rfl⟩⟩ := advance_flag advanced
    · trivial
    · exact stageOwned_missed
  | read =>
    obtain ⟨incoming, locked, _, ⟨_, _, _, _, rfl⟩ | ⟨_, rfl⟩⟩ := advance_read advanced
    · trivial
    · exact stageOwned_missed
  | acquire =>
    obtain ⟨_, _, _, _, _, rfl⟩ := advance_acquire advanced
    trivial
  | authenticated response =>
    obtain ⟨incoming, stage, ⟨identity, setCookie, session, verified, known, rfl⟩ | ⟨_, _, rfl⟩⟩ :=
      advance_authenticated advanced
    · exact ⟨known, (answers incoming session identity setCookie stage known verified).2⟩
    · trivial
  | indexed ok =>
    obtain ⟨_, _, _, _, stage, ⟨_, rfl⟩ | ⟨_, rfl⟩⟩ := advance_indexed advanced
    · rw [stage] at before
      exact before
    · trivial
  | loaded query =>
    obtain ⟨_, identity, _, _, stage, ⟨found, _, rfl⟩ | ⟨_, rfl⟩⟩ := advance_loaded advanced
    · rw [stage] at before
      have same : (cachedOf identity found).identity = identity := by
        cases found <;> rfl
      refine ⟨before.1, ?_⟩
      rw [same]
      exact before.2
    · trivial
  | insert plan =>
    obtain ⟨_, _, _, _, _, ⟨_, rfl⟩ | ⟨_, _, _, _, rfl⟩⟩ := advance_insert advanced
    · trivial
    · trivial
  | answer now seen =>
    obtain ⟨_, _, _, _, _, _, _, rfl⟩ := advance_answer advanced
    trivial
  | cancel =>
    obtain rfl := advance_cancel advanced
    trivial

/-- **Requests and entries stay their users'.** -/
theorem owned_step (owned : Owned owner presented state) (restrained : Restrained label)
    (shows : Presented lib presented label) (answers : Answers owner deleted state label)
    (stepped : Instance.step state label = some (next, out)) : Owned owner presented next := by
  have kept := kept_of_step restrained stepped
  have entries : ∀ key entry, next.cache.inner.entries.lookup key = some entry →
      ∃ value ∈ presented, ∃ session, key.cookie = lib.sha256 (asBytes value) ∧
        sessionOf lib value = some session ∧ entry.sub = owner session := by
    intro key entry found
    rcases kept.entries key entry found with
      ⟨earlier, old, same⟩ | ⟨request, incoming, cached, setCookie, session, stage, keyed, same⟩
    · obtain ⟨value, known, session, cookie, derived, user⟩ := owned.entries key earlier old
      exact ⟨value, known, session, cookie, derived, same.trans user⟩
    · have before := owned.stages request
      have presents := owned.presents request
      rw [stage] at before presents
      obtain ⟨value, shown, rfl⟩ := Incoming.key_eq_some.mp keyed
      obtain ⟨other, also, derived⟩ := Instance.session_eq_some.mp before.1
      obtain rfl : value = other := Option.some.inj (shown.symm.trans also)
      exact ⟨value, presents incoming rfl value shown, session, rfl, derived, same.trans before.2⟩
  have moved : ∀ request stage, Presents presented stage → StageOwned owner stage →
      (∀ other, Presents presented (Function.update state.stages request stage other)) ∧
        ∀ other, StageOwned owner (Function.update state.stages request stage other) := by
    intro request stage presents before
    refine ⟨(Function.forall_update_iff _ fun _ stage => Presents presented stage).mpr
      ⟨presents, ?_⟩,
      (Function.forall_update_iff _ fun _ stage => StageOwned owner stage).mpr ⟨before, ?_⟩⟩
    · exact fun other _ => owned.presents other
    · exact fun other _ => owned.stages other
  cases label with
  | arrive request headers =>
    obtain ⟨_, ⟨_, _, _, rfl⟩ | ⟨incoming, stage, gathered, _, reached, rfl⟩⟩ := step_arrive stepped
    · obtain ⟨presents, before⟩ := moved request .done (fun _ shown => nomatch shown) trivial
      exact ⟨presents, before, entries, kept.indexed owned.indexed⟩
    · have shown : Presents presented stage := by
        intro other same value
        obtain rfl : other = incoming := by
          rcases reached with rfl | ⟨_, rfl⟩
          · exact (Option.some.inj same).symm
          · exact (Option.some.inj same).symm
        exact shows other gathered value
      have nothing : StageOwned owner stage := by
        rcases reached with rfl | ⟨_, rfl⟩
        · trivial
        · trivial
      obtain ⟨presents, before⟩ := moved request stage shown nothing
      exact ⟨presents, before, entries, kept.indexed owned.indexed⟩
  | cache label =>
    obtain ⟨_, _, _, _, _, rfl⟩ := step_cache stepped
    exact ⟨owned.presents, owned.stages, entries, kept.indexed owned.indexed⟩
  | move request move =>
    obtain ⟨reached, advanced, _, rfl⟩ := step_move stepped
    obtain ⟨presents, before⟩ := moved request _
      (presents_of_advance (owned.presents request) advanced)
      (stageOwned_of_advance (owned.stages request) answers advanced)
    exact ⟨presents, before, entries, kept.indexed owned.indexed⟩

/-! ### Behind the deletion, on one instance -/

variable {sessions : List Str}

/-- The key belongs to a cookie of one of the sessions. -/
def Cut (lib : Libraries) (presented : Set Str) (sessions : List Str) (key : Key) : Prop :=
  ∃ value ∈ presented, ∃ session ∈ sessions, key.cookie = lib.sha256 (asBytes value) ∧
    sessionOf lib value = some session

/-- The instance has no entry of the sessions. -/
def Clean (presented : Set Str) (sessions : List Str) (state : Instance.State lib) : Prop :=
  ∀ key entry, state.cache.inner.entries.lookup key = some entry → ¬ Cut lib presented sessions key

/-- The subscriber's walk still comes by every entry of the sessions. -/
def Covered (presented : Set Str) (sessions : List Str) (state : Instance.State lib) : Prop :=
  ∀ key entry, state.cache.inner.entries.lookup key = some entry → Cut lib presented sessions key →
    key ∈ state.cache.jobs subscriberJob

/-- The request has its answer from oauth2-proxy, for one of the sessions, and has not inserted
yet. -/
def InWindow (sessions : List Str) : Stage lib → Prop
  | .indexing _ _ _ session => session ∈ sessions
  | .loading _ _ _ session => session ∈ sessions
  | .filling _ _ _ session => session ∈ sessions
  | _ => False

theorem not_inWindow_missed {incoming : Incoming lib} {locked : Bool} :
    ¬ InWindow sessions (missed incoming locked) := by
  cases locked with
  | true => exact id
  | false => exact id

/-- **Nobody comes into the window** behind the deletion. -/
theorem outside_of_advance {request : Nat} {move : Instance.Move} {moved : Instance.Moved lib}
    (outside : ¬ InWindow sessions (state.stages request))
    (gone : ∀ session ∈ sessions, session ∈ deleted)
    (answers : Answers owner deleted state (.move request move))
    (advanced : Instance.advance state request move (state.stages request) = some moved) :
    ¬ InWindow sessions moved.stage := by
  cases move with
  | flag =>
    obtain ⟨_, _, _, ⟨_, rfl⟩ | ⟨_, rfl⟩⟩ := advance_flag advanced
    · exact id
    · exact not_inWindow_missed
  | read =>
    obtain ⟨_, _, _, ⟨_, _, _, _, rfl⟩ | ⟨_, rfl⟩⟩ := advance_read advanced
    · exact id
    · exact not_inWindow_missed
  | acquire =>
    obtain ⟨_, _, _, _, _, rfl⟩ := advance_acquire advanced
    exact id
  | authenticated response =>
    obtain ⟨incoming, stage, ⟨identity, setCookie, session, verified, known, rfl⟩ | ⟨_, _, rfl⟩⟩ :=
      advance_authenticated advanced
    · exact fun inside =>
        (answers incoming session identity setCookie stage known verified).1 (gone session inside)
    · exact id
  | indexed ok =>
    obtain ⟨_, _, _, _, stage, ⟨_, rfl⟩ | ⟨_, rfl⟩⟩ := advance_indexed advanced
    · rw [stage] at outside
      exact outside
    · exact id
  | loaded query =>
    obtain ⟨_, _, _, _, stage, ⟨_, _, rfl⟩ | ⟨_, rfl⟩⟩ := advance_loaded advanced
    · rw [stage] at outside
      exact outside
    · exact id
  | insert plan =>
    obtain ⟨_, _, _, _, _, ⟨_, rfl⟩ | ⟨_, _, _, _, rfl⟩⟩ := advance_insert advanced
    · exact id
    · exact id
  | answer now seen =>
    obtain ⟨_, _, _, _, _, _, _, rfl⟩ := advance_answer advanced
    exact id
  | cancel =>
    obtain rfl := advance_cancel advanced
    exact id

theorem outside_step (outside : ∀ request, ¬ InWindow sessions (state.stages request))
    (gone : ∀ session ∈ sessions, session ∈ deleted) (answers : Answers owner deleted state label)
    (stepped : Instance.step state label = some (next, out)) :
    ∀ request, ¬ InWindow sessions (next.stages request) := by
  have kept : ∀ request stage, ¬ InWindow sessions stage →
      ∀ other, ¬ InWindow sessions (Function.update state.stages request stage other) :=
    fun request stage here => (Function.forall_update_iff _ fun _ stage =>
      ¬ InWindow sessions stage).mpr ⟨here, fun other _ => outside other⟩
  cases label with
  | arrive request headers =>
    obtain ⟨_, ⟨_, _, _, rfl⟩ | ⟨_, _, _, _, rfl | ⟨_, rfl⟩, rfl⟩⟩ := step_arrive stepped
    · exact kept request _ id
    · exact kept request _ id
    · exact kept request _ id
  | cache label =>
    obtain ⟨_, _, _, _, _, rfl⟩ := step_cache stepped
    exact outside
  | move request move =>
    obtain ⟨moved, advanced, _, rfl⟩ := step_move stepped
    exact kept request _ (outside_of_advance (outside request) gone answers advanced)

section Distinct

variable (distinct : Set.InjOn (fun value => lib.sha256 (asBytes value)) presented)

include distinct

/-- A request with a key of the sessions is a request of one of them. -/
theorem session_of_cut {incoming : Incoming lib} {key : Key} {session : Str} {stage : Stage lib}
    (presents : Presents presented stage) (shown : stage.incoming? = some incoming)
    (keyed : incoming.request.key = some key) (known : incoming.session = some session) :
    Cut lib presented sessions key ↔ session ∈ sessions := by
  obtain ⟨value, read, rfl⟩ := Incoming.key_eq_some.mp keyed
  obtain ⟨other, also, derived⟩ := Instance.session_eq_some.mp known
  obtain rfl : value = other := Option.some.inj (read.symm.trans also)
  constructor
  · rintro ⟨another, there, found, inside, same, from_another⟩
    obtain rfl : value = another := distinct (presents incoming shown value read) there same
    obtain rfl : found = session := Option.some.inj (from_another.symm.trans derived)
    exact inside
  · exact fun inside => ⟨value, presents incoming shown value read, session, inside, rfl, derived⟩

/-- **No entry of the sessions is inserted.** -/
theorem Kept.old_of_cut (kept : Kept state next) (owned : Owned owner presented state)
    (outside : ∀ request, ¬ InWindow sessions (state.stages request)) {key : Key}
    {entry : Cache.Entry} (found : next.cache.inner.entries.lookup key = some entry)
    (cut : Cut lib presented sessions key) :
    ∃ earlier, state.cache.inner.entries.lookup key = some earlier := by
  rcases kept.entries key entry found with
    ⟨earlier, old, _⟩ | ⟨request, incoming, cached, setCookie, session, stage, keyed, _⟩
  · exact ⟨earlier, old⟩
  · have before := owned.stages request
    have presents := owned.presents request
    have apart := outside request
    rw [stage] at before presents apart
    exact absurd ((session_of_cut distinct presents rfl keyed before.1).mp cut) apart

theorem Kept.clean (kept : Kept state next) (owned : Owned owner presented state)
    (outside : ∀ request, ¬ InWindow sessions (state.stages request))
    (clean : Clean presented sessions state) : Clean presented sessions next := by
  intro key entry found cut
  obtain ⟨earlier, old⟩ := kept.old_of_cut distinct owned outside found cut
  exact clean key earlier old cut

theorem Kept.covered (kept : Kept state next) (owned : Owned owner presented state)
    (outside : ∀ request, ¬ InWindow sessions (state.stages request))
    (covered : Covered presented sessions state) : Covered presented sessions next := by
  intro key entry found cut
  obtain ⟨earlier, old⟩ := kept.old_of_cut distinct owned outside found cut
  refine (kept.walk key (covered key earlier old cut)).resolve_right fun absent => ?_
  rw [found] at absent
  cases absent

/-- An entry of the sessions is one of the sub they belong to. -/
theorem sub_of_cut {target : Str} (owned : Owned owner presented state)
    (mine : ∀ session ∈ sessions, owner session = target) {key : Key} {entry : Cache.Entry}
    (found : state.cache.inner.entries.lookup key = some entry)
    (cut : Cut lib presented sessions key) : entry.sub = target := by
  obtain ⟨value, known, session, cookie, derived, user⟩ := owned.entries key entry found
  obtain ⟨other, there, session', inside, same, also⟩ := cut
  obtain rfl : value = other := distinct known there (cookie.symm.trans same)
  obtain rfl : session = session' := Option.some.inj (derived.symm.trans also)
  exact user.trans (mine session inside)

end Distinct

/-- A walk over everything comes by every entry. -/
theorem covered_of_all {plan : Plan Key} (walk : state.cache.jobs subscriberJob =
    Cache.snapshot plan state.cache.now state.cache.inner .all) :
    Covered presented sessions state := by
  intro key entry found _
  rw [walk]
  refine (plan.perm _).mem_iff.mpr ?_
  have present : key ∈ state.cache.inner.entries :=
    AList.lookup_isSome.mp (by rw [found]; rfl)
  exact AList.mem_keys.mp present

/-- When the walk is over nothing is left. -/
theorem Covered.clean (covered : Covered presented sessions state)
    (idle : state.cache.jobs subscriberJob = []) : Clean presented sessions state := by
  intro key entry found cut
  have left := covered key entry found cut
  rw [idle] at left
  cases left

/-! ### What is claimed of a run -/

/-- A `SUBSCRIBE` after the `PUBLISH`. -/
def Resubscribed (node : Nat) (past : List Event) : Prop :=
  ∃ before after, past = before ++ .published :: after ∧ .subscribed node ∈ after

/-- The instance has processed the message of the kill, or it has subscribed after it was published,
or its flag is down. -/
def Cleared (node : Nat) (past : List Event) (live : Bool) : Prop :=
  .processed node ∈ past ∨ Resubscribed node past ∨ live = false

/-- When the request last looked at the flag the instance was still to be cleared. -/
def Looked (node : Nat) (origin : Origin) (past : List Event) : Prop :=
  ∃ earlier live later, past = earlier ++ .of node (.consulted origin live) :: later ∧
    (∀ live, .of node (.consulted origin live) ∉ later) ∧ ¬ Cleared node earlier live

/-- The request is one of the sessions. -/
def OfSession (lib : Libraries) (sessions : List Str) (origin : Origin) : Prop :=
  ∃ session ∈ sessions, origin.value.bind (sessionOf lib) = some session

/-- A request of the sessions that has arrived behind the deletion is answered 200 only where it
last looked at an instance still to be cleared. -/
def Excluded (lib : Libraries) (sessions : List Str) (past : List Event) (event : Event) : Prop :=
  ∀ node origin now response, event = .of node (.answered origin now response) →
    response.status = 200 → .of node (.arrived origin) ∈ past → OfSession lib sessions origin →
      Looked node origin past

/-- oauth2-proxy has an identity for no session that is deleted, and for the others that of their
user; the cookie values of the run are the presented ones. -/
def Assumed (owner : Str → Str) (presented : Set Str) (state : State lib) : Label → Prop
  | .request node label => Presented lib presented label ∧
      Answers owner state.deleted (state.instances node) label
  | _ => True

/-- The same with the users left open: oauth2-proxy has an identity for no session that is
deleted. -/
def Promised (presented : Set Str) (state : State lib) : Label → Prop
  | .request node label => Presented lib presented label ∧
      Forgets state.deleted (state.instances node) label
  | _ => True

/-! ### The fleet before the deletion -/

/-- The stages with the flag down. -/
def LinkStage.lowered : LinkStage → Prop
  | .down => True
  | .opened => True
  | .clearing => True
  | .flushing => True
  | _ => False

/-- No message of the kill is under way. -/
def Link.Unsent (link : Link) : Prop :=
  Message.kill ∉ link.pending ∧ link.stage ≠ .dropping .kill

/-- **What every run keeps**: sessions are their owner's, flags are as the subscribers have left
them, and no message of the kill is under way before its `PUBLISH`. -/
structure Grounded (owner : Str → Str) (presented : Set Str) (target : Str) (fleet : State lib) :
    Prop where
  owned : ∀ node, Owned owner presented (fleet.instances node)
  lowered : ∀ node, (fleet.links node).stage.lowered →
    (fleet.instances node).cache.subscribed = false
  raising : ∀ node, (fleet.links node).stage = .raising →
    (fleet.instances node).cache.subscribed = true
  index : ∀ sub, ∀ session ∈ fleet.index sub, owner session = sub
  listed : ∀ sessions, fleet.kill = .dropSessions sessions →
    ∀ session ∈ sessions, owner session = target
  unsent : fleet.kill.early → ∀ node, (fleet.links node).Unsent

variable {target : Str} {killer : Nat} {fleet later : State lib} {events : List Event}

theorem grounded_init : Grounded owner presented target (.init lib) := by
  refine ⟨fun node => ⟨?_, fun _ => trivial, ?_, ?_⟩, fun _ _ => rfl, ?_, ?_, ?_, ?_⟩
  · exact fun _ _ shown => nomatch shown
  · exact fun _ _ found => nomatch found
  · exact fun _ _ found => nomatch found
  · exact fun _ same => nomatch same
  · exact fun _ _ member => nomatch member
  · exact fun _ same => nomatch same
  · exact fun _ _ => ⟨List.not_mem_nil, fun same => nomatch same⟩

/-- A cache with the entries of the old one. -/
theorem Owned.onCache {cache : Cache.State} (owned : Owned owner presented state)
    (same : cache.inner = state.cache.inner) :
    Owned owner presented { state with cache := cache } := by
  refine ⟨owned.presents, owned.stages, ?_, ?_⟩
  · show ∀ key entry, cache.inner.entries.lookup key = some entry → _
    rw [same]
    exact owned.entries
  · show cache.inner.Indexed
    rw [same]
    exact owned.indexed

/-- A step of an instance. -/
theorem Grounded.serve {node : Nat} {instance' : Instance.State lib}
    (grounded : Grounded owner presented target fleet)
    (kept : Kept (fleet.instances node) instance') (owned : Owned owner presented instance') :
    Grounded owner presented target (fleet.serve node instance') := by
  have flag : ∀ other, ((fleet.serve node instance').instances other).cache.subscribed =
      (fleet.instances other).cache.subscribed :=
    (Function.forall_update_iff _ fun other (instance' : Instance.State lib) =>
      instance'.cache.subscribed =
      (fleet.instances other).cache.subscribed).mpr ⟨kept.flag, fun _ _ => rfl⟩
  have owners : ∀ other, Owned owner presented ((fleet.serve node instance').instances other) :=
    (Function.forall_update_iff _ fun _ instance' => Owned owner presented instance').mpr
      ⟨owned, fun other _ => grounded.owned other⟩
  refine ⟨owners, fun other down => ?_, fun other up => ?_, grounded.index, grounded.listed,
    grounded.unsent⟩
  · rw [flag]
    exact grounded.lowered other down
  · rw [flag]
    exact grounded.raising other up

section Link

variable {node : Nat} {cache cache' : Cache.State} {link link' : Link}

theorem LinkMoved.inner (moved : LinkMoved target node cache link cache' link' events) :
    cache'.inner = cache.inner := by
  cases moved <;> rfl

theorem LinkMoved.shows (moved : LinkMoved target node cache link cache' link' events) :
    ∀ event ∈ events, event = .subscribed node ∨ event = .processed node := by
  cases moved with
  | subscribe => exact List.forall_mem_singleton.mpr (Or.inl rfl)
  | processed => exact List.forall_mem_singleton.mpr (Or.inr rfl)
  | _ => exact fun _ member => nomatch member

/-- The flag stays down until it is raised. -/
theorem LinkMoved.lowered (moved : LinkMoved target node cache link cache' link' events)
    (old : link.stage.lowered → cache.subscribed = false) (down : link'.stage.lowered) :
    cache'.subscribed = false := by
  cases moved with
  | subscribe stage => exact old (by rw [stage]; trivial)
  | clear _ dead => exact dead
  | flush stage => exact old (by rw [stage]; trivial)
  | lower _ => rfl
  | cut => exact old down
  | raise => exact down.elim
  | swap => exact down.elim
  | message => exact down.elim
  | handled => exact down.elim
  | processed => exact down.elim
  | fail => exact down.elim

theorem LinkMoved.raising (moved : LinkMoved target node cache link cache' link' events)
    (old : link.stage = .raising → cache.subscribed = true) (up : link'.stage = .raising) :
    cache'.subscribed = true := by
  cases moved with
  | raise _ live => exact live
  | cut => exact old up
  | subscribe => cases up
  | clear => cases up
  | flush => cases up
  | lower => cases up
  | swap => cases up
  | message => cases up
  | handled => cases up
  | processed => cases up
  | fail => cases up

theorem LinkMoved.unsent (moved : LinkMoved target node cache link cache' link' events)
    (old : link.Unsent) : link'.Unsent := by
  cases moved with
  | subscribe _ => exact ⟨List.not_mem_nil, fun same => nomatch same⟩
  | fail _ => exact ⟨List.not_mem_nil, fun same => nomatch same⟩
  | message _ waiting =>
    obtain ⟨absent, _⟩ := old
    rw [waiting] at absent
    refine ⟨fun member => absent (List.mem_cons_of_mem _ member), fun same => absent ?_⟩
    rw [LinkStage.dropping.inj same]
    exact List.mem_cons_self
  | cut => exact old
  | raise => exact ⟨old.1, fun same => nomatch same⟩
  | clear => exact ⟨old.1, fun same => nomatch same⟩
  | flush => exact ⟨old.1, fun same => nomatch same⟩
  | swap => exact ⟨old.1, fun same => nomatch same⟩
  | handled => exact ⟨old.1, fun same => nomatch same⟩
  | processed => exact ⟨old.1, fun same => nomatch same⟩
  | lower => exact ⟨old.1, fun same => nomatch same⟩

end Link

/-- A property of each instance with its link, where one of each is new. -/
theorem forall_linked {property : Nat → Instance.State lib → Link → Prop} {node : Nat}
    {cache : Cache.State} {link : Link}
    (here : property node { fleet.instances node with cache := cache } link)
    (others : ∀ other, other ≠ node → property other (fleet.instances other) (fleet.links other))
    (other : Nat) : property other (((fleet.onCache node cache).relink node link).instances other)
      (((fleet.onCache node cache).relink node link).links other) := by
  show property other (Function.update fleet.instances node _ other)
    (Function.update fleet.links node link other)
  by_cases same : other = node
  · rw [same, Function.update_self, Function.update_self]
    exact here
  · rw [Function.update_of_ne same, Function.update_of_ne same]
    exact others other same

theorem grounded_link {node : Nat} {cache : Cache.State} {link : Link}
    (grounded : Grounded owner presented target fleet)
    (moved : LinkMoved target node (fleet.instances node).cache
      (fleet.links node) cache link events) :
    Grounded owner presented target ((fleet.onCache node cache).relink node link) := by
  refine ⟨?_, ?_, ?_, grounded.index, grounded.listed, fun early => ?_⟩
  · exact @forall_linked _ fleet (fun _ state _ => Owned owner presented state) _ _ link
      ((grounded.owned node).onCache moved.inner) fun other _ => grounded.owned other
  · exact @forall_linked _ fleet (fun _ state link => link.stage.lowered →
      state.cache.subscribed = false) _ _ _ (moved.lowered (grounded.lowered node))
      fun other _ => grounded.lowered other
  · exact @forall_linked _ fleet (fun _ state link => link.stage = .raising →
      state.cache.subscribed = true) _ _ _ (moved.raising (grounded.raising node))
      fun other _ => grounded.raising other
  · exact @forall_linked _ fleet (fun _ _ link => link.Unsent) _ cache _
      (moved.unsent (grounded.unsent early node)) fun other _ => grounded.unsent early other

theorem broadcast_stage (fleet : State lib) (message : Message) (node : Nat) :
    ((fleet.broadcast message).links node).stage = (fleet.links node).stage := by
  show (if (fleet.links node).registered = true then _ else fleet.links node : Link).stage = _
  split
  · rfl
  · rfl

/-- A command of the kill. -/
theorem grounded_kill (grounded : Grounded owner presented target fleet)
    (moved : KillMoved target killer fleet later events) :
    Grounded owner presented target later := by
  have instances : ∀ node, Owned owner presented (later.instances node) ∧
      (later.instances node).cache.subscribed = (fleet.instances node).cache.subscribed := by
    rcases moved.instances with same | ⟨plan, same⟩
    · rw [same]
      exact fun node => ⟨grounded.owned node, rfl⟩
    · rw [same]
      exact (Function.forall_update_iff _ fun node (state : Instance.State lib) =>
        Owned owner presented state ∧
          state.cache.subscribed = (fleet.instances node).cache.subscribed).mpr
        ⟨⟨(grounded.owned killer).onCache rfl, rfl⟩, fun node _ => ⟨grounded.owned node, rfl⟩⟩
  have stages : ∀ node, (later.links node).stage = (fleet.links node).stage := by
    rcases moved.links with same | ⟨same, _⟩
    · rw [same]
      exact fun _ => rfl
    · rw [same]
      exact broadcast_stage fleet .kill
  refine ⟨fun node => (instances node).1, fun node down => ?_, fun node up => ?_,
    fun sub session member => grounded.index sub session (moved.index sub session member), ?_, ?_⟩
  · rw [(instances node).2]
    exact grounded.lowered node (stages node ▸ down)
  · rw [(instances node).2]
    exact grounded.raising node (stages node ▸ up)
  · intro sessions listed session member
    rw [moved.listed sessions listed] at member
    exact grounded.index target session member
  · intro early
    rcases moved.links with same | ⟨_, sent⟩
    · rw [same]
      exact grounded.unsent (moved.early early)
    · exact absurd early sent

/-- **One step of the fleet.** -/
theorem grounded_step {label : Label} (grounded : Grounded owner presented target fleet)
    (assumed : Assumed owner presented fleet label)
    (stepped : step target killer fleet label = some (later, events)) :
    Grounded owner presented target later := by
  cases label with
  | request node label =>
    obtain ⟨alone, instance', _, moved, rfl, rfl⟩ := step_request stepped
    have restrained := restrained_of_free alone
    exact grounded.serve (kept_of_step restrained moved)
      (owned_step (grounded.owned node) restrained assumed.1 assumed.2 moved)
  | record node request fate =>
    obtain ⟨incoming, identity, setCookie, session, instance', _, stage, moved, rfl, rfl⟩ :=
      step_record stepped
    have restrained : Restrained (.move request (.indexed fate.ok)) := trivial
    have answers : Answers owner [] (fleet.instances node) (.move request (.indexed fate.ok)) :=
      trivial
    have served := grounded.serve (kept_of_step restrained moved)
      (owned_step (grounded.owned node) restrained trivial answers moved)
    have before := (grounded.owned node).stages request
    rw [stage] at before
    by_cases executed : fate.executed = true
    · rw [if_pos executed]
      refine ⟨served.owned, served.lowered, served.raising, ?_, served.listed, served.unsent⟩
      refine (Function.forall_update_iff _ fun sub sessions =>
        ∀ session ∈ sessions, owner session = sub).mpr ⟨?_, fun sub _ => grounded.index sub⟩
      intro other member
      rcases List.mem_insert_iff.mp member with rfl | old
      · exact before.2.symm
      · exact grounded.index _ other old
    · rw [if_neg executed]
      exact served
  | link node move =>
    obtain ⟨cache, link, moved, rfl⟩ := step_link stepped
    exact grounded_link grounded moved
  | publish sub =>
    cases stepped
    refine ⟨grounded.owned, fun node down => grounded.lowered node (broadcast_stage .. ▸ down),
      fun node up => grounded.raising node (broadcast_stage .. ▸ up), grounded.index,
      grounded.listed, fun early node => ?_⟩
    obtain ⟨absent, apart⟩ := grounded.unsent early node
    refine ⟨?_, fun same => apart (broadcast_stage fleet (.other sub) node ▸ same)⟩
    show Message.kill ∉
      (if (fleet.links node).registered = true then _ else fleet.links node : Link).pending
    split
    · intro member
      rcases List.mem_append.mp member with old | new
      · exact absent old
      · cases List.mem_singleton.mp new
    · exact absent
  | kill fate plan => exact grounded_kill grounded (step_kill stepped)

/-! ### Behind the deletion -/

/-- What a request that has arrived behind the deletion knows of the instance it has looked at. -/
def Behind (sessions : List Str) (clean : Prop) (past : List Event) (node request : Nat) :
    Stage lib → Prop
  | .reading incoming _ => .of node (.arrived (originOf request incoming)) ∈ past →
    OfSession lib sessions (originOf request incoming) →
      Looked node (originOf request incoming) past ∨ clean
  | .answering incoming _ _ => .of node (.arrived (originOf request incoming)) ∈ past →
    OfSession lib sessions (originOf request incoming) →
      Looked node (originOf request incoming) past
  | _ => True

/-- **One instance behind the deletion**: nobody is in the window, an instance that has processed
the message has no entry of the sessions, nor has one that has subscribed since and has its flag
up. -/
structure NodeShut (presented : Set Str) (sessions : List Str) (past : List Event) (node : Nat)
    (state : Instance.State lib) (link : Link) : Prop where
  outside : ∀ request, ¬ InWindow sessions (state.stages request)
  processed : .processed node ∈ past → Clean presented sessions state
  dropping : link.stage = .dropping .kill → Covered presented sessions state
  raised : Resubscribed node past → state.cache.subscribed = true → Clean presented sessions state
  flushing : Resubscribed node past → link.stage = .flushing → Covered presented sessions state
  behind : ∀ request, Behind sessions (Clean presented sessions state) past node request
    (state.stages request)

/-- **What a run behind the deletion keeps**: each instance is clean or still to be cleared, and
every answer is accounted for. -/
structure Shut (owner : Str → Str) (presented : Set Str) (target : Str) (sessions : List Str)
    (past : List Event) (fleet : State lib) : Prop where
  grounded : Grounded owner presented target fleet
  gone : ∀ session ∈ sessions, session ∈ fleet.deleted
  nodes : ∀ node, NodeShut presented sessions past node (fleet.instances node) (fleet.links node)
  answers : Everywhere (Excluded lib sessions) past

variable {past : List Event} {node : Nat} {link : Link}

theorem resubscribed_of_append (absent : .subscribed node ∉ events)
    (again : Resubscribed node (past ++ events)) : Resubscribed node past := by
  obtain ⟨before, after, shape, member⟩ := again
  rcases List.append_eq_append_iff.mp shape with ⟨rest, rfl, rfl⟩ | ⟨rest, rfl, same⟩
  · exact absurd (List.mem_append_right _ (List.mem_cons_of_mem _ member)) absent
  · rcases rest with _ | ⟨first, rest⟩
    · rw [List.nil_append] at same
      rw [← same] at absent
      exact absurd (List.mem_cons_of_mem _ member) absent
    · obtain ⟨rfl, rfl⟩ := List.cons.inj same
      refine ⟨before, rest, rfl, (List.mem_append.mp member).resolve_right absent⟩

theorem Looked.append {origin : Origin} (looked : Looked node origin past)
    (quiet : ∀ live, .of node (.consulted origin live) ∉ events) :
    Looked node origin (past ++ events) := by
  obtain ⟨earlier, live, later, rfl, last, uncleared⟩ := looked
  refine ⟨earlier, live, later ++ events, ?_, fun other member => ?_, uncleared⟩
  · rw [List.append_assoc, List.cons_append]
  · exact (List.mem_append.mp member).elim (last other) (quiet other)

/-- Events that are not the request's. -/
theorem Behind.append {clean clean' : Prop} {request : Nat} {stage : Stage lib}
    (behind : Behind sessions clean past node request stage) (still : clean → clean')
    (quiet : ∀ origin, origin.request = request → .of node (.arrived origin) ∉ events ∧
      ∀ live, .of node (.consulted origin live) ∉ events) :
    Behind sessions clean' (past ++ events) node request stage := by
  cases stage with
  | reading incoming locked =>
    intro arrived wanted
    obtain ⟨before, looks⟩ := quiet (originOf request incoming) rfl
    have old := (List.mem_append.mp arrived).resolve_right before
    exact (behind old wanted).imp (fun looked => looked.append looks) still
  | answering incoming cached setCookie =>
    intro arrived wanted
    obtain ⟨before, looks⟩ := quiet (originOf request incoming) rfl
    exact (behind ((List.mem_append.mp arrived).resolve_right before) wanted).append looks
  | _ => trivial

/-- The event is not the node's. -/
def Elsewhere (node : Nat) : Event → Prop
  | .of other _ => other ≠ node
  | .subscribed other => other ≠ node
  | .processed other => other ≠ node
  | _ => True

/-- **An instance the step is not about.** -/
theorem NodeShut.frame (shut : NodeShut presented sessions past node state link)
    (elsewhere : ∀ event ∈ events, Elsewhere node event) :
    NodeShut presented sessions (past ++ events) node state link := by
  have absent : .subscribed node ∉ events := fun member => elsewhere _ member rfl
  refine ⟨shut.outside, fun done => shut.processed ?_, shut.dropping,
    fun again => shut.raised (resubscribed_of_append absent again),
    fun again => shut.flushing (resubscribed_of_append absent again), fun request => ?_⟩
  · exact (List.mem_append.mp done).resolve_right fun member => elsewhere _ member rfl
  · exact (shut.behind request).append id fun origin _ =>
      ⟨fun member => elsewhere _ member rfl, fun live member => elsewhere _ member rfl⟩

theorem behind_missed {clean : Prop} {request : Nat} {incoming : Incoming lib} {locked : Bool} :
    Behind sessions clean past node request (missed incoming locked) := by
  cases locked with
  | true => trivial
  | false => trivial

/-- An event that is no answer. -/
theorem excluded_of_silent {event : Event}
    (silent : ∀ node origin now response, event ≠ .of node (.answered origin now response)) :
    Excluded lib sessions past event :=
  fun node origin now response same => absurd same (silent node origin now response)

/-- A label that is neither the request's arrival nor its look at the flag shows neither. -/
theorem quiet_of_fits {request : Nat} {out : List Instance.Event}
    (fits : ∀ event ∈ out, Fits label event) (apart : ∀ headers, label ≠ .arrive request headers)
    (unseen : label ≠ .move request .flag) (origin : Origin) (mine : origin.request = request) :
    .of node (.arrived origin) ∉ out.map (Event.of node) ∧
      ∀ live, .of node (.consulted origin live) ∉ out.map (Event.of node) := by
  refine ⟨fun member => ?_, fun live member => ?_⟩
  · obtain ⟨event, inside, same⟩ := List.mem_map.mp member
    obtain ⟨_, rfl⟩ := Event.of.inj same
    obtain ⟨headers, arrives⟩ := fits _ inside
    rw [mine] at arrives
    exact apart headers arrives
  · obtain ⟨event, inside, same⟩ := List.mem_map.mp member
    obtain ⟨_, rfl⟩ := Event.of.inj same
    have looks : label = .move origin.request .flag := fits _ inside
    rw [mine] at looks
    exact unseen looks

section Serve

variable (distinct : Set.InjOn (fun value => lib.sha256 (asBytes value)) presented)

include distinct

/-- **One move of a request**: where it looks at a flag that is up the instance is clean, or still
to be cleared; what it finds there tells which. -/
theorem behind_of_advance {request : Nat} {move : Instance.Move} {moved : Instance.Moved lib}
    {clean' : Prop} (shut : NodeShut presented sessions past node state link)
    (owned : Owned owner presented state) (still : Clean presented sessions state → clean')
    (advanced : Instance.advance state request move (state.stages request) = some moved) :
    Behind sessions clean' (past ++ moved.out.map (.of node)) node request moved.stage := by
  have behind := shut.behind request
  have outside := shut.outside request
  have before := owned.stages request
  have presents := owned.presents request
  cases move with
  | flag =>
    obtain ⟨incoming, locked, stage, ⟨live, rfl⟩ | ⟨_, rfl⟩⟩ := advance_flag advanced
    · intro _ _
      by_cases cleared : Cleared node past true
      · rcases cleared with done | again | dead
        · exact Or.inr (still (shut.processed done))
        · exact Or.inr (still (shut.raised again live))
        · cases dead
      · exact Or.inl ⟨past, true, [], rfl, fun _ => List.not_mem_nil, cleared⟩
    · exact behind_missed
  | read =>
    obtain ⟨incoming, locked, stage, ⟨key, cached, keyed, looked, rfl⟩ | ⟨_, rfl⟩⟩ :=
      advance_read advanced
    · intro arrived wanted
      rw [stage] at behind presents
      have old : .of node (.arrived (originOf request incoming)) ∈ past := by
        refine (List.mem_append.mp arrived).resolve_right fun member => ?_
        cases List.mem_singleton.mp member
      rcases behind old wanted with seen | clean
      · refine seen.append fun live member => ?_
        cases List.mem_singleton.mp member
      · obtain ⟨session, inside, known⟩ := wanted
        have cut := (session_of_cut distinct presents rfl keyed known).mpr inside
        unfold Cache.lookup at looked
        split at looked
        · cases looked
        · rename_i entry found
          exact absurd cut (clean key entry found)
    · exact behind_missed
  | acquire =>
    obtain ⟨_, _, _, _, _, rfl⟩ := advance_acquire advanced
    trivial
  | authenticated response =>
    obtain ⟨_, _, ⟨_, _, _, _, _, rfl⟩ | ⟨_, _, rfl⟩⟩ := advance_authenticated advanced
    · trivial
    · trivial
  | indexed ok =>
    obtain ⟨_, _, _, _, _, ⟨_, rfl⟩ | ⟨_, rfl⟩⟩ := advance_indexed advanced
    · trivial
    · trivial
  | loaded query =>
    obtain ⟨_, _, _, _, _, ⟨_, _, rfl⟩ | ⟨_, rfl⟩⟩ := advance_loaded advanced
    · trivial
    · trivial
  | insert plan =>
    obtain ⟨incoming, cached, setCookie, session, stage, inserted⟩ := advance_insert advanced
    rw [stage] at outside before
    have never : ¬ OfSession lib sessions (originOf request incoming) := by
      rintro ⟨other, inside, known⟩
      obtain rfl : session = other := Option.some.inj (before.1.symm.trans known)
      exact outside inside
    rcases inserted with ⟨_, rfl⟩ | ⟨_, _, _, _, rfl⟩
    · exact fun _ wanted => absurd wanted never
    · exact fun _ wanted => absurd wanted never
  | answer now seen =>
    obtain ⟨_, _, _, _, _, _, _, rfl⟩ := advance_answer advanced
    trivial
  | cancel =>
    obtain rfl := advance_cancel advanced
    trivial

/-- **One step of an instance**, for each of its requests. -/
theorem behind_step {clean' : Prop} (shut : NodeShut presented sessions past node state link)
    (owned : Owned owner presented state) (still : Clean presented sessions state → clean')
    (stepped : Instance.step state label = some (next, out)) (request : Nat) :
    Behind sessions clean' (past ++ out.map (.of node)) node request (next.stages request) := by
  have fits := fits_of_step stepped
  have other : (∀ headers, label ≠ .arrive request headers) → label ≠ .move request .flag →
      Behind sessions clean' (past ++ out.map (.of node)) node request (state.stages request) :=
    fun apart unseen => (shut.behind request).append still (quiet_of_fits fits apart unseen)
  cases label with
  | arrive first headers =>
    have others : ∀ stage, (stage = .done ∨ (∃ incoming, stage = .looking incoming false) ∨
        ∃ incoming, stage = .authenticating incoming) →
        Behind sessions clean' (past ++ out.map (.of node)) node request
          (Function.update state.stages first stage request) := by
      intro stage reached
      by_cases mine : request = first
      · rw [mine, Function.update_self]
        rcases reached with rfl | ⟨_, rfl⟩ | ⟨_, rfl⟩ <;> trivial
      · rw [Function.update_of_ne mine]
        exact other (fun _ same => mine (Instance.Label.arrive.inj same).1.symm)
          fun same => nomatch same
    obtain ⟨_, ⟨_, _, _, rfl⟩ | ⟨incoming, _, _, _, rfl | ⟨_, rfl⟩, rfl⟩⟩ := step_arrive stepped
    · exact others _ (Or.inl rfl)
    · exact others _ (Or.inr (Or.inl ⟨incoming, rfl⟩))
    · exact others _ (Or.inr (Or.inr ⟨incoming, rfl⟩))
  | cache label =>
    obtain ⟨_, _, _, _, _, rfl⟩ := step_cache stepped
    exact other (fun _ same => nomatch same) fun same => nomatch same
  | move first move =>
    obtain ⟨moved, advanced, same, rfl⟩ := step_move stepped
    by_cases mine : request = first
    · show Behind _ _ _ _ _ (Function.update state.stages first moved.stage request)
      rw [mine, Function.update_self, same]
      exact behind_of_advance distinct shut owned still advanced
    · show Behind _ _ _ _ _ (Function.update state.stages first moved.stage request)
      rw [Function.update_of_ne mine]
      exact other (fun _ same => nomatch same)
        fun same => mine (Instance.Label.move.inj same).1.symm

/-- **One step of an instance behind the deletion.** -/
theorem NodeShut.served (shut : NodeShut presented sessions past node state link)
    (owned : Owned owner presented state) (gone : ∀ session ∈ sessions, session ∈ deleted)
    (restrained : Restrained label) (answers : Answers owner deleted state label)
    (stepped : Instance.step state label = some (next, out)) :
    NodeShut presented sessions (past ++ out.map (.of node)) node next link := by
  have kept := kept_of_step restrained stepped
  have still : Clean presented sessions state → Clean presented sessions next :=
    kept.clean distinct owned shut.outside
  have covered : Covered presented sessions state → Covered presented sessions next :=
    kept.covered distinct owned shut.outside
  have again : Resubscribed node (past ++ out.map (.of node)) → Resubscribed node past := by
    refine resubscribed_of_append fun member => ?_
    obtain ⟨_, _, same⟩ := List.mem_map.mp member
    cases same
  refine ⟨outside_step shut.outside gone answers stepped, fun done => still (shut.processed ?_),
    fun stage => covered (shut.dropping stage), fun since live => ?_,
    fun since stage => covered (shut.flushing (again since) stage),
    behind_step distinct shut owned still stepped⟩
  · refine (List.mem_append.mp done).resolve_right fun member => ?_
    obtain ⟨_, _, same⟩ := List.mem_map.mp member
    cases same
  · rw [kept.flag] at live
    exact still (shut.raised (again since) live)

end Serve

/-- **The answers of one step**: a request that answers from the cache has looked at the flag. -/
theorem answers_step (shut : NodeShut presented sessions past node state link)
    (all : Everywhere (Excluded lib sessions) past)
    (stepped : Instance.step state label = some (next, out)) :
    Everywhere (Excluded lib sessions) (past ++ out.map (.of node)) := by
  have fits := fits_of_step stepped
  by_cases answer : ∃ request now seen, label = .move request (.answer now seen)
  · obtain ⟨request, now, seen, rfl⟩ := answer
    obtain ⟨moved, advanced, rfl, _⟩ := step_move stepped
    obtain ⟨incoming, cached, setCookie, cache, audits, stage, _, rfl⟩ := advance_answer advanced
    have silent : ∀ origin, .of node (.arrived origin) ∉ (audits.map .audit).map (Event.of node) ∧
        ∀ live, .of node (.consulted origin live) ∉ (audits.map .audit).map (Event.of node) := by
      intro origin
      rw [List.map_map]
      refine ⟨fun member => ?_, fun live member => ?_⟩
      · obtain ⟨_, _, same⟩ := List.mem_map.mp member
        cases same
      · obtain ⟨_, _, same⟩ := List.mem_map.mp member
        cases same
    rw [List.map_append, ← List.append_assoc]
    refine everywhere_concat.mpr ⟨everywhere_append all fun event member before => ?_, ?_⟩
    · obtain ⟨_, inside, rfl⟩ := List.mem_map.mp member
      obtain ⟨_, _, rfl⟩ := List.mem_map.mp inside
      exact excluded_of_silent fun _ _ _ _ same => nomatch same
    · intro other origin time response same _ arrived wanted
      cases same
      have before := shut.behind request
      rw [stage] at before
      have behind : Behind sessions _ (past ++ (audits.map .audit).map (.of node)) node request _ :=
        before.append id fun origin _ => silent origin
      exact behind arrived wanted
  · refine everywhere_append all fun event member before => excluded_of_silent ?_
    rintro other origin now response rfl
    obtain ⟨_, inside, same⟩ := List.mem_map.mp member
    cases same
    obtain ⟨time, seen, same⟩ := fits _ inside
    exact answer ⟨_, time, seen, same⟩

/-! ### A move of a subscriber behind the deletion -/

/-- The entries, the subscriber's walk, the flag and the stage are all that counts of an instance
that no request of its own moves. -/
theorem NodeShut.alike {cache : Cache.State} {link' : Link}
    (shut : NodeShut presented sessions past node state link)
    (inner : cache.inner = state.cache.inner)
    (walk : cache.jobs subscriberJob = state.cache.jobs subscriberJob)
    (flag : cache.subscribed = state.cache.subscribed) (stage : link'.stage = link.stage) :
    NodeShut presented sessions past node { state with cache := cache } link' := by
  have clean : Clean presented sessions { state with cache := cache } ↔
      Clean presented sessions state := by
    unfold Clean
    dsimp only
    rw [inner]
  have covered : Covered presented sessions { state with cache := cache } ↔
      Covered presented sessions state := by
    unfold Covered
    dsimp only
    rw [inner, walk]
  have none : ∀ {origin : Origin}, .of node (.arrived origin) ∉ ([] : List Event) ∧
      ∀ live, .of node (.consulted origin live) ∉ ([] : List Event) :=
    ⟨List.not_mem_nil, fun _ => List.not_mem_nil⟩
  refine ⟨shut.outside, fun done => clean.mpr (shut.processed done), fun down => ?_,
    fun again live => ?_, fun again down => ?_, fun request => ?_⟩
  · rw [stage] at down
    exact covered.mpr (shut.dropping down)
  · exact clean.mpr (shut.raised again (flag.symm.trans live))
  · rw [stage] at down
    exact covered.mpr (shut.flushing again down)
  · have before := (shut.behind request).append clean.mpr fun _ _ => none
    rwa [List.append_nil] at before

theorem walking_jobs (cache : Cache.State) (job : Nat) (scope : Cache.Scope) (plan : Plan Key) :
    (walking cache job scope plan).jobs job = Cache.snapshot plan cache.now cache.inner scope := by
  show Function.update cache.jobs job _ job = _
  rw [Function.update_self]

theorem walking_of_ne {job other : Nat} (apart : other ≠ job) (cache : Cache.State)
    (scope : Cache.Scope) (plan : Plan Key) :
    (walking cache job scope plan).jobs other = cache.jobs other := by
  show Function.update cache.jobs job _ other = _
  rw [Function.update_of_ne apart]

/-- What a subscriber's move has to bring, its entries being the old ones. -/
theorem NodeShut.relinked {cache : Cache.State} {link' : Link}
    (shut : NodeShut presented sessions past node state link)
    (inner : cache.inner = state.cache.inner)
    (quiet : ∀ event ∈ events, event = .subscribed node ∨ event = .processed node)
    (processed : .processed node ∈ events → Clean presented sessions state)
    (dropping : link'.stage = .dropping .kill →
      Covered presented sessions { state with cache := cache })
    (raised : Resubscribed node (past ++ events) → cache.subscribed = true →
      Clean presented sessions state)
    (flushing : Resubscribed node (past ++ events) → link'.stage = .flushing →
      Covered presented sessions { state with cache := cache }) :
    NodeShut presented sessions (past ++ events) node { state with cache := cache } link' := by
  have clean : Clean presented sessions state →
      Clean presented sessions { state with cache := cache } := by
    unfold Clean
    dsimp only
    rw [inner]
    exact id
  refine ⟨shut.outside, fun done => clean ?_, dropping, fun again live => clean (raised again live),
    flushing, fun request => (shut.behind request).append clean fun origin _ => ⟨fun member => ?_,
      fun live member => ?_⟩⟩
  · exact (List.mem_append.mp done).elim shut.processed processed
  · rcases quiet _ member with same | same
    · cases same
    · cases same
  · rcases quiet _ member with same | same
    · cases same
    · cases same

/-- **One move of a subscriber**, the kill's message included: a walk over everything or over the
sub comes by every entry of the sessions, and when it is over none is left. -/
theorem NodeShut.linked (distinct : Set.InjOn (fun value => lib.sha256 (asBytes value)) presented)
    {cache : Cache.State} {link' : Link} (shut : NodeShut presented sessions past node state link)
    (owned : Owned owner presented state) (mine : ∀ session ∈ sessions, owner session = target)
    (lowered : link.stage.lowered → state.cache.subscribed = false)
    (raising : link.stage = .raising → state.cache.subscribed = true)
    (moved : LinkMoved target node state.cache link cache link' events) :
    NodeShut presented sessions (past ++ events) node { state with cache := cache } link' := by
  have inner := moved.inner
  have shows := moved.shows
  have none : .processed node ∈ ([] : List Event) → Clean presented sessions state :=
    fun member => nomatch member
  have old : Resubscribed node (past ++ []) → Resubscribed node past :=
    resubscribed_of_append List.not_mem_nil
  have up : Resubscribed node (past ++ []) → state.cache.subscribed = true →
      Clean presented sessions state := fun again => shut.raised (old again)
  cases moved with
  | subscribe stage =>
    refine shut.relinked inner shows (fun member => ?_)
      (fun same => nomatch same) (fun _ live => ?_) fun _ same => nomatch same
    · cases List.mem_singleton.mp member
    · rw [lowered (by rw [stage]; trivial)] at live
      cases live
  | raise stage live =>
    exact shut.relinked inner shows none (fun same => nomatch same) up fun _ same => nomatch same
  | clear stage dead =>
    exact shut.relinked inner shows none (fun same => nomatch same) up fun _ same => nomatch same
  | flush stage =>
    exact shut.relinked inner shows none (fun same => nomatch same) up
      fun _ _ => covered_of_all (walking_jobs ..)
  | swap finished =>
    refine shut.relinked inner shows none (fun same => nomatch same) (fun again _ => ?_)
      fun _ same => nomatch same
    rcases finished with ⟨stage, idle⟩ | stage
    · exact (shut.flushing (old again) stage).clean idle
    · exact shut.raised (old again) (raising stage)
  | message stage waiting =>
    refine shut.relinked inner shows none (fun same => ?_) up fun _ same => nomatch same
    intro key entry found cut
    have ofSub : Message.kill.sub target = entry.sub :=
      (sub_of_cut distinct owned mine found cut).symm
    show key ∈ (walking ..).jobs subscriberJob
    rw [walking_jobs, LinkStage.dropping.inj same, ofSub]
    exact owned.indexed.snapshot found
  | handled stage =>
    exact shut.relinked inner shows none (fun same => nomatch same) up fun _ same => nomatch same
  | processed stage idle =>
    refine shut.relinked inner shows (fun _ => (shut.dropping stage).clean idle)
      (fun same => nomatch same) (fun again => ?_)
      fun _ same => nomatch same
    refine shut.raised (resubscribed_of_append (fun member => ?_) again)
    cases List.mem_singleton.mp member
  | fail _ =>
    exact shut.relinked inner shows none (fun same => nomatch same) up fun _ same => nomatch same
  | lower stage =>
    exact shut.relinked inner shows none (fun same => nomatch same) (fun _ live => nomatch live)
      fun _ same => nomatch same
  | cut =>
    exact shut.relinked inner shows none shut.dropping up fun again => shut.flushing (old again)

/-! ### The fleet behind the deletion -/

section Fleet

variable (distinct : Set.InjOn (fun value => lib.sha256 (asBytes value)) presented)

include distinct

/-- A step of one instance, its other ones standing by. -/
theorem Shut.served {instance' : Instance.State lib}
    (shut : Shut owner presented target sessions past fleet) (restrained : Restrained label)
    (answers : Answers owner fleet.deleted (fleet.instances node) label)
    (stepped : Instance.step (fleet.instances node) label = some (instance', out)) :
    (∀ other, NodeShut presented sessions (past ++ out.map (.of node)) other
      ((fleet.serve node instance').instances other) (fleet.links other)) ∧
      Everywhere (Excluded lib sessions) (past ++ out.map (.of node)) := by
  refine ⟨?_, answers_step (shut.nodes node) shut.answers stepped⟩
  refine (Function.forall_update_iff _ fun other state => NodeShut presented sessions
    (past ++ out.map (.of node)) other state (fleet.links other)).mpr ⟨?_, fun other apart => ?_⟩
  · exact (shut.nodes node).served distinct (shut.grounded.owned node) shut.gone restrained answers
      stepped
  · refine (shut.nodes other).frame fun event member => ?_
    obtain ⟨_, _, rfl⟩ := List.mem_map.mp member
    exact apart.symm

/-- **One step of the fleet behind the deletion.** -/
theorem shut_step {label : Label} (mine : ∀ session ∈ sessions, owner session = target)
    (shut : Shut owner presented target sessions past fleet)
    (assumed : Assumed owner presented fleet label)
    (stepped : step target killer fleet label = some (later, events)) :
    Shut owner presented target sessions (past ++ events) later := by
  have grounded := grounded_step shut.grounded assumed stepped
  cases label with
  | request node label =>
    obtain ⟨alone, instance', _, moved, rfl, rfl⟩ := step_request stepped
    obtain ⟨nodes, answers⟩ := shut.served distinct (restrained_of_free alone) assumed.2 moved
    exact ⟨grounded, shut.gone, nodes, answers⟩
  | record node request fate =>
    obtain ⟨_, _, _, _, instance', _, _, moved, rfl, rfl⟩ := step_record stepped
    have restrained : Restrained (.move request (.indexed fate.ok)) := trivial
    have said : Answers owner fleet.deleted (fleet.instances node)
        (.move request (.indexed fate.ok)) :=
      trivial
    obtain ⟨nodes, answers⟩ := shut.served distinct restrained said moved
    by_cases executed : fate.executed = true
    · rw [if_pos executed] at grounded ⊢
      exact ⟨grounded, shut.gone, nodes, answers⟩
    · rw [if_neg executed] at grounded ⊢
      exact ⟨grounded, shut.gone, nodes, answers⟩
  | link node move =>
    obtain ⟨cache, link, moved, rfl⟩ := step_link stepped
    refine ⟨grounded, shut.gone, @forall_linked _ fleet (fun other state link =>
      NodeShut presented sessions (past ++ events) other state link) node cache link ?_ ?_,
      everywhere_append shut.answers fun event member before => excluded_of_silent ?_⟩
    · exact (shut.nodes node).linked distinct (shut.grounded.owned node) mine
        (shut.grounded.lowered node) (shut.grounded.raising node) moved
    · intro other apart
      refine (shut.nodes other).frame fun event member => ?_
      rcases moved.shows event member with rfl | rfl
      · exact apart.symm
      · exact apart.symm
    · rintro other origin now response rfl
      rcases moved.shows _ member with same | same
      · cases same
      · cases same
  | publish sub =>
    cases stepped
    rw [List.append_nil]
    refine ⟨grounded, shut.gone, fun other => ?_, shut.answers⟩
    exact (shut.nodes other).alike rfl rfl rfl (broadcast_stage fleet (.other sub) other)
  | kill fate plan =>
    have moved := step_kill stepped
    have elsewhere : ∀ node, ∀ event ∈ events, Elsewhere node event := by
      intro node event member
      rcases moved.silent event member with ⟨_, rfl⟩ | rfl | ⟨_, rfl⟩ <;> trivial
    have stages : ∀ node, (later.links node).stage = (fleet.links node).stage := by
      rcases moved.links with same | ⟨same, _⟩
      · rw [same]
        exact fun _ => rfl
      · rw [same]
        exact broadcast_stage fleet .kill
    refine ⟨grounded, fun session inside => moved.deleted session (shut.gone session inside), ?_,
      everywhere_append shut.answers fun event member before => excluded_of_silent ?_⟩
    · have framed := fun node => (shut.nodes node).frame (elsewhere node)
      rcases moved.instances with same | ⟨plan, same⟩
      · rw [same]
        exact fun node => (framed node).alike rfl rfl rfl (stages node)
      · rw [same]
        refine (Function.forall_update_iff _ fun node state => NodeShut presented sessions
          (past ++ events) node state (later.links node)).mpr ⟨?_, fun node _ => ?_⟩
        · refine (framed killer).alike rfl ?_ rfl (stages killer)
          exact walking_of_ne Nat.zero_ne_one ..
        · exact (framed node).alike rfl rfl rfl (stages node)
    · rintro node origin now response rfl
      rcases moved.silent _ member with ⟨_, same⟩ | same | ⟨_, same⟩
      · cases same
      · cases same
      · cases same

end Fleet

/-- The deletion moves nobody. -/
theorem dropped {fate : Fate} {plan : Plan Key} {out : List Event}
    (stage : fleet.kill = .dropSessions sessions) (executed : fate.executed = true)
    (stepped : step target killer fleet (.kill fate plan) = some (later, out)) :
    later.instances = fleet.instances ∧ later.links = fleet.links ∧
      ∀ session ∈ sessions, session ∈ later.deleted := by
  have moved : advanceKill target killer fleet fate plan fleet.kill = some (later, out) := stepped
  rw [stage] at moved
  cases sessions with
  | nil =>
    cases moved
    exact ⟨rfl, rfl, fun _ inside => nomatch inside⟩
  | cons session sessions =>
    unfold advanceKill at moved
    dsimp only at moved
    rw [if_pos executed] at moved
    cases moved
    exact ⟨rfl, rfl, fun _ inside => List.mem_append_right _ inside⟩

/-- Nobody in the window, nothing sent: the instance is shut. -/
theorem nodeShut_nil (outside : ∀ request, ¬ InWindow sessions (state.stages request))
    (unsent : link.Unsent) : NodeShut presented sessions [] node state link := by
  have never : ¬ Resubscribed node [] := by
    rintro ⟨before, after, same, _⟩
    exact absurd same.symm (List.append_ne_nil_of_right_ne_nil _ fun empty => nomatch empty)
  refine ⟨outside, fun done => (nomatch done), fun down => absurd down unsent.2,
    fun again => absurd again never, fun again => absurd again never, fun request => ?_⟩
  cases state.stages request with
  | reading incoming locked => exact fun arrived => nomatch arrived
  | answering incoming cached setCookie => exact fun arrived => nomatch arrived
  | _ => trivial

/-- **The in-flight miss is the only window**: where no request of the sessions stands between its
oauth2-proxy answer and its insertion when the kill deletes their keys, no request of theirs that
arrives behind is answered 200 by an instance that, when the request last looked at its flag, had
processed the message, had subscribed since it was published, or had its flag down. -/
theorem stays_out (distinct : Set.InjOn (fun value => lib.sha256 (asBytes value)) presented)
    {fate : Fate} {plan : Plan Key} {before out after : List Event}
    {fleet middle last : State lib}
    (reached : Run (step target killer) (Assumed owner presented) (.init lib) before fleet)
    (stage : fleet.kill = .dropSessions sessions)
    (quiet : ∀ node request, ¬ InWindow sessions ((fleet.instances node).stages request))
    (executed : fate.executed = true)
    (deletes : step target killer fleet (.kill fate plan) = some (middle, out))
    (run : Run (step target killer) (Assumed owner presented) middle after last) :
    Everywhere (Excluded lib sessions) after := by
  have grounded : Grounded owner presented target fleet :=
    @Run.invariant _ _ _ _ _ _ (fun _ fleet => Grounded owner presented target fleet) grounded_init
      (fun _ _ _ _ _ before permitted stepped => grounded_step before permitted stepped) _ _ reached
  have mine : ∀ session ∈ sessions, owner session = target := grounded.listed sessions stage
  have early : fleet.kill.early := by
    rw [stage]
    trivial
  obtain ⟨instances, links, gone⟩ := dropped stage executed deletes
  have start : Shut owner presented target sessions [] middle := by
    refine ⟨grounded_kill grounded (step_kill deletes), gone, fun node => ?_, everywhere_nil _⟩
    rw [instances, links]
    exact nodeShut_nil (quiet node) (grounded.unsent early node)
  have shut : Shut owner presented target sessions after last :=
    run.invariant start fun _ _ _ _ _ before permitted stepped =>
      shut_step distinct mine before permitted stepped
  exact shut.answers

end Window

/-! ### A kill of one session -/

namespace Visit

open Instance.Visit

/-- The user of the kill. -/
def user : Str := "u1".toList

/-- Another user. -/
def second : Str := "u2".toList

/-- Snapshots in the order of the table. -/
def table : Plan Key := Plan.table Key

/-- The instance subscribes, with nothing to empty. -/
def subscribing : List Label :=
  [.link 0 .subscribe, .link 0 .load, .link 0 (.flush table), .link 0 .swap]

/-- A request looks twice, finds nothing and asks oauth2-proxy. -/
def asking (request : Nat) (response : Decide.AuthResponse) : List Label :=
  [.request 0 (.arrive request headers), .request 0 (.move request .flag),
    .request 0 (.move request .read), .request 0 (.move request .acquire),
    .request 0 (.move request .flag), .request 0 (.move request .read),
    .request 0 (.move request (.authenticated response))]

/-- It is indexed, fills the cache and is answered. -/
def filling (request : Nat) : List Label :=
  [.record 0 request .answered, .request 0 (.move request (.loaded fun _ _ _ => some (some app))),
    .request 0 (.move request (.insert table)), .request 0 (.move request (.answer 0 0))]

/-- Commands of the kill, each with its answer. -/
def commands (count : Nat) : List Label :=
  List.replicate count (.kill .answered table)

/-- oauth2-proxy's answer to a session that it does not know. -/
def unknown : Decide.AuthResponse :=
  .answered 401 (fun _ => none) []

/-- Where the requests of the runs come from. -/
def visit (request : Nat) : Origin :=
  { request := request
    value := some value
    slug := "wiki".toList
    uri := ['/'] }

/-- The decision of a request of this user. -/
def took (sub : Str) : Event :=
  .of 0 (.audit (.took
    { sub := sub
      slug := "wiki".toList
      decision := .allow
      srcIp := some (.v4 0x0a000001#32)
      path := ['/']
      requestId := some "r1".toList
      seen := 0 }))

/-- The 200 of a request of this user. -/
def opened (request : Nat) (sub : Str) : Event :=
  .of 0 (.answered (visit request) 0 (Decide.answered .allow (identity (asBytes sub)) []))

/-- What a request shows up to oauth2-proxy's answer. -/
def missing (request : Nat) : List Event :=
  [.of 0 (.arrived (visit request)), .of 0 (.consulted (visit request) true),
    .of 0 (.consulted (visit request) true)]

/-- What a request shows from oauth2-proxy's answer on. -/
def filled (request : Nat) (sub : Str) : List Event :=
  [.of 0 (.authenticated (visit request) (identity (asBytes sub))),
    .of 0 (.indexed (visit request) sub session), .of 0 (.loaded (visit request) (some app)),
    .of 0 (.inserted (visit request) 0), took sub, opened request sub]

/-- What the kill and its message show behind the deletion. -/
def killed : List Event :=
  [.published, .processed 0, .killed 1]

/-! ### Playing a kill through -/

/-- Nothing is deleted yet. -/
def Uncut (fleet : State lib) (_ : Label) : Prop :=
  fleet.deleted = []

instance (fleet : State lib) (label : Label) : Decidable (Uncut fleet label) :=
  inferInstanceAs (Decidable (_ = _))

/-- The label moves none but the first two requests of the instance. -/
def among (label : Label) : Bool :=
  label.moved.all fun (node, request) => node = 0 && request < 2

/-- The request is not under way. -/
def rests : Stage lib → Bool
  | .idle => true
  | .done => true
  | _ => false

/-- The labels up to the deletion and behind it, and what they show. -/
def plays (first : List Label) (before : List Event) (second : List Label) (after : List Event) :
    Bool :=
  (exec (guarded (step user 0) Uncut) (.init lib) first).any fun (fleet, trace) =>
    trace = before && fleet.kill = .dropSessions [session] &&
      ((List.range 2).all fun request => rests ((fleet.instances 0).stages request)) &&
      (step user 0 fleet (.kill .answered table)).any fun (middle, out) =>
        out = [.deleted [session]] &&
          (exec (step user 0) middle second).any fun (_, trace) => trace = after

/-- The kill deletes with nobody in the window. -/
theorem of_plays {first second : List Label} {before after : List Event}
    (own : first.all among = true) (played : plays first before second after = true) :
    ∃ fleet middle last,
      exec (guarded (step user 0) Uncut) (.init lib) first = some (fleet, before) ∧
      fleet.kill = .dropSessions [session] ∧
      (∀ node request, ¬ InWindow [session] ((fleet.instances node).stages request)) ∧
      step user 0 fleet (.kill .answered table) = some (middle, [.deleted [session]]) ∧
      exec (step user 0) middle second = some (last, after) := by
  obtain ⟨⟨fleet, trace⟩, done, shown⟩ := (Option.any_eq_true _ _).mp played
  simp only [Bool.and_eq_true, decide_eq_true_iff] at shown
  obtain ⟨⟨⟨same, stage⟩, resting⟩, deletion⟩ := shown
  obtain ⟨⟨middle, out⟩, deletes, rest⟩ := (Option.any_eq_true _ _).mp deletion
  obtain ⟨alone, rest⟩ := (Bool.and_eq_true _ _).mp rest
  obtain ⟨⟨last, final⟩, follows, closed⟩ := (Option.any_eq_true _ _).mp rest
  rw [same] at done
  rw [show out = _ from of_decide_eq_true alone] at deletes
  rw [show final = after from of_decide_eq_true closed] at follows
  refine ⟨fleet, middle, last, done, stage, fun node request inside => ?_, deletes, follows⟩
  by_cases mine : node = 0 ∧ request < 2
  · obtain ⟨rfl, early⟩ := mine
    have rested := List.all_eq_true.mp resting request (List.mem_range.mpr early)
    cases here : (fleet.instances 0).stages request with
    | idle => rw [here] at inside; exact inside
    | done => rw [here] at inside; exact inside
    | _ =>
      rw [here] at rested
      cases rested
  · have still : (fleet.instances node).stages request =
        ((State.init lib).instances node).stages request := by
      refine @Lib.exec_keeps _ _ _ _ _ (fun fleet => (fleet.instances node).stages request) first
        (fun label member _ _ _ stepped => ?_) _ _ _ done
      refine stages_of_step (Lib.guarded_eq_some.mp stepped).2 fun moved => mine ?_
      have inside := List.all_eq_true.mp own label member
      unfold among at inside
      rw [moved] at inside
      obtain ⟨here, early⟩ := (Bool.and_eq_true _ _).mp inside
      exact ⟨of_decide_eq_true here, of_decide_eq_true early⟩
    rw [still] at inside
    exact inside

/-! ### The promises -/

/-- The label shows no cookie and brings no answer of oauth2-proxy. -/
def plain : Label → Bool
  | .request _ (.arrive ..) => false
  | .request _ (.move _ (.authenticated _)) => false
  | _ => true

theorem kept_of_plain {label : Label} (quiet : plain label = true) (fleet : State lib) :
    Promised {value} fleet label ∧ Assumed (fun _ => user) {value} fleet label := by
  cases label with
  | request node label =>
    cases label with
    | arrive request headers => cases quiet
    | cache label => exact ⟨⟨trivial, trivial⟩, trivial, trivial⟩
    | move request move =>
      cases move with
      | authenticated response => cases quiet
      | _ => exact ⟨⟨trivial, trivial⟩, trivial, trivial⟩
  | _ => exact ⟨trivial, trivial⟩

theorem shows (request : Nat) : Presented lib {value} (.arrive request headers) := by
  obtain ⟨incoming, key, gathered, _, _, shown, _⟩ := gathers
  intro other same text found
  rw [gathered] at same
  obtain rfl := Except.ok.inj same
  rw [shown] at found
  exact (Option.some.inj found).symm

/-- What holds of the plain labels, of an arrival and of this answer of oauth2-proxy. -/
theorem forall_asking {property : Label → Prop} {request : Nat} {response : Decide.AuthResponse}
    (quiet : ∀ label, plain label = true → property label)
    (arrives : property (.request 0 (.arrive request headers)))
    (answers : property (.request 0 (.move request (.authenticated response)))) :
    ∀ label ∈ asking request response, property label := by
  simp only [asking, List.forall_mem_cons]
  exact ⟨arrives, quiet _ rfl, quiet _ rfl, quiet _ rfl, quiet _ rfl, quiet _ rfl, answers,
    fun _ member => nomatch member⟩

theorem forall_plain {property : Label → Prop} {labels : List Label}
    (quiet : ∀ label, plain label = true → property label) (all : labels.all plain = true) :
    ∀ label ∈ labels, property label :=
  fun label member => quiet label (List.all_eq_true.mp all label member)

/-! ### One user, in before the kill and out behind it -/

/-- The session's request fills the cache; the kill of its user has listed the session. -/
def signingIn : List Label :=
  subscribing ++ asking 0 (response (asBytes user)) ++ filling 0 ++ commands 2

/-- The session is answered from an entry of its own. -/
def signedIn : List Event :=
  .subscribed 0 :: missing 0 ++ filled 0 user

/-- The message is published and processed, the kill answers, and the session arrives again. -/
def turningAway : List Label :=
  commands 1 ++ [.link 0 (.message table), .request 0 (.cache (.evict 0)), .link 0 .handled] ++
    commands 3 ++ asking 1 unknown

/-- The entry is gone, and oauth2-proxy knows nobody. -/
def turnedAway : List Event :=
  killed ++ missing 1 ++ [.of 0 (.refused 1 Decide.unauthorized)]

theorem turned_away : plays signingIn signedIn turningAway turnedAway = true := by
  decide +kernel

theorem text_user : lib.http.text (identity (asBytes user)).sub = user := by
  decide +kernel

theorem assumed_signingIn : ∀ label ∈ signingIn, ∀ fleet : State lib, fleet.deleted = [] →
    Assumed (fun _ => user) {value} fleet label := by
  have quiet : ∀ label, plain label = true → ∀ fleet : State lib, fleet.deleted = [] →
      Assumed (fun _ => user) {value} fleet label :=
    fun _ quiet fleet _ => (kept_of_plain quiet fleet).2
  simp only [signingIn, List.forall_mem_append]
  refine ⟨⟨⟨forall_plain quiet rfl, forall_asking quiet ?_ ?_⟩, forall_plain quiet rfl⟩,
    forall_plain quiet rfl⟩
  · exact fun _ _ => ⟨shows 0, trivial⟩
  · refine fun fleet fresh => ⟨trivial, fun incoming session other setCookie _ _ same => ?_⟩
    rw [Instance.Visit.verified (by decide)] at same
    cases same
    rw [fresh]
    exact ⟨List.not_mem_nil, text_user⟩

theorem assumed_turningAway : ∀ label ∈ turningAway, ∀ fleet : State lib,
    Assumed (fun _ => user) {value} fleet label := by
  have quiet : ∀ label, plain label = true → ∀ fleet : State lib,
      Assumed (fun _ => user) {value} fleet label :=
    fun _ quiet fleet => (kept_of_plain quiet fleet).2
  simp only [turningAway, List.forall_mem_append]
  refine ⟨⟨⟨forall_plain quiet rfl, forall_plain quiet rfl⟩, forall_plain quiet rfl⟩,
    forall_asking quiet (fun _ => ⟨shows 1, trivial⟩) ?_⟩
  exact fun _ => ⟨trivial, fun _ _ _ _ _ _ same => nomatch same⟩

/-! ### A session of two users -/

/-- The first user's index write goes through without an answer, the second user's request on the
same session fills the cache, and the kill of the first has listed the session. -/
def sharing : List Label :=
  subscribing ++ asking 0 (response (asBytes user)) ++ [.record 0 0 .lost] ++
    asking 1 (response (asBytes second)) ++ filling 1 ++ commands 2

/-- The first user's request is refused, the second user's answered. -/
def shared : List Event :=
  .subscribed 0 :: missing 0 ++
    [.of 0 (.authenticated (visit 0) (identity (asBytes user))),
      .of 0 (.refused 0 (Decide.refuse .storeUnavailable))] ++ missing 1 ++ filled 1 second

/-- The message is published and processed, the kill answers, and the session arrives again. -/
def lettingIn : List Label :=
  commands 1 ++ [.link 0 (.message table), .link 0 .handled] ++ commands 3 ++
    [.request 0 (.arrive 2 headers), .request 0 (.move 2 .flag), .request 0 (.move 2 .read),
      .request 0 (.move 2 (.answer 0 0))]

/-- The entry names the second user, and has stayed. -/
def letIn : List Event :=
  killed ++ [.of 0 (.arrived (visit 2)), .of 0 (.consulted (visit 2) true),
    .of 0 (.hit (visit 2) 0), took second, opened 2 second]

theorem let_in : plays sharing shared lettingIn letIn = true := by
  decide +kernel

theorem promised_sharing : ∀ label ∈ sharing, ∀ fleet : State lib, fleet.deleted = [] →
    Promised {value} fleet label := by
  have quiet : ∀ label, plain label = true → ∀ fleet : State lib, fleet.deleted = [] →
      Promised {value} fleet label :=
    fun _ quiet fleet _ => (kept_of_plain quiet fleet).1
  have asked : ∀ request user, ∀ label ∈ asking request (response (asBytes user)),
      ∀ fleet : State lib, fleet.deleted = [] → Promised {value} fleet label := by
    refine fun request user => forall_asking quiet (fun _ _ => ⟨shows request, trivial⟩) ?_
    refine fun fleet fresh => ⟨trivial, fun _ session _ _ _ _ _ => ?_⟩
    rw [fresh]
    exact List.not_mem_nil
  simp only [sharing, List.forall_mem_append]
  exact ⟨⟨⟨⟨⟨forall_plain quiet rfl, asked 0 user⟩, forall_plain quiet rfl⟩, asked 1 second⟩,
    forall_plain quiet rfl⟩, forall_plain quiet rfl⟩

theorem promised_lettingIn : ∀ label ∈ lettingIn, ∀ fleet : State lib,
    Promised {value} fleet label := by
  have quiet : ∀ label, plain label = true → ∀ fleet : State lib, Promised {value} fleet label :=
    fun _ quiet fleet => (kept_of_plain quiet fleet).1
  simp only [lettingIn, List.forall_mem_append, List.forall_mem_cons]
  exact ⟨⟨⟨forall_plain quiet rfl, quiet _ rfl, quiet _ rfl, fun _ member => nomatch member⟩,
    forall_plain quiet rfl⟩, fun _ => ⟨shows 2, trivial⟩, quiet _ rfl, quiet _ rfl, quiet _ rfl,
    fun _ member => nomatch member⟩

/-- The answer is a 200 to the session behind everything the kill does. -/
theorem not_excluded_letIn : ¬ Everywhere (Excluded lib [session]) letIn := by
  intro all
  have looked := all (killed ++ [.of 0 (.arrived (visit 2)), .of 0 (.consulted (visit 2) true),
      .of 0 (.hit (visit 2) 0), took second]) (opened 2 second) [] rfl 0 (visit 2) 0 _ rfl rfl
    (by decide) ⟨session, List.mem_singleton_self session, by decide +kernel⟩
  obtain ⟨earlier, live, later, shape, last, uncleared⟩ := looked
  have parts : killed ++ [.of 0 (.arrived (visit 2))] = earlier ∧
      Event.of 0 (.consulted (visit 2) true) = .of 0 (.consulted (visit 2) live) ∧
      [.of 0 (.hit (visit 2) 0), took second] = later := by
    refine (List.append_cons_inj_of_notMem ?_ ?_).mp shape
    · cases live <;> decide
    · cases live <;> decide
  refine uncleared (Or.inl ?_)
  rw [← parts.1]
  decide

end Visit

open Visit Instance.Visit in
/-- A session is let in and cached; its user is killed, and the instance processes the message. The
next request of the session is answered 401. -/
theorem stays_out_visit : ∃ fleet middle last,
    Run (step user 0) (Assumed (fun _ => user) {value}) (.init lib) signedIn fleet ∧
      fleet.kill = .dropSessions [session] ∧
      step user 0 fleet (.kill .answered table) = some (middle, [.deleted [session]]) ∧
      Run (step user 0) (Assumed (fun _ => user) {value}) middle turnedAway last ∧
      Everywhere (Excluded lib [session]) turnedAway := by
  obtain ⟨fleet, middle, last, done, stage, quiet, deletes, follows⟩ :=
    of_plays (by decide) turned_away
  have reached :
      Run (step user 0) (Assumed (fun _ => user) {value}) (.init lib) signedIn fleet := by
    refine Run.of_exec_within (fun label member state next stepped => ?_) done
    obtain ⟨fresh, moved⟩ := Lib.guarded_eq_some.mp stepped
    exact ⟨assumed_signingIn label member state fresh, moved⟩
  have after := Run.of_exec assumed_turningAway follows
  exact ⟨fleet, middle, last, reached, stage, deletes, after,
    stays_out (Set.injOn_singleton _ _) reached stage quiet rfl deletes after⟩

open Visit Instance.Visit in
/-- **A session that oauth2-proxy has named two users for** is answered 200 behind the kill of the
first, by an instance that has processed the message: the entry is the second user's. -/
theorem second_user_answered : ∃ fleet middle last,
    Run (step user 0) (Promised {value}) (.init lib) shared fleet ∧
      fleet.kill = .dropSessions [session] ∧
      (∀ node request, ¬ InWindow [session] ((fleet.instances node).stages request)) ∧
      step user 0 fleet (.kill .answered table) = some (middle, [.deleted [session]]) ∧
      Run (step user 0) (Promised {value}) middle letIn last ∧
      ¬ Everywhere (Excluded lib [session]) letIn := by
  obtain ⟨fleet, middle, last, done, stage, quiet, deletes, follows⟩ := of_plays (by decide) let_in
  refine ⟨fleet, middle, last, ?_, stage, quiet, deletes, Run.of_exec promised_lettingIn follows,
    not_excluded_letIn⟩
  refine Run.of_exec_within (fun label member state next stepped => ?_) done
  obtain ⟨fresh, moved⟩ := Lib.guarded_eq_some.mp stepped
  exact ⟨promised_sharing label member state fresh, moved⟩

end OpenBerat.Fleet
