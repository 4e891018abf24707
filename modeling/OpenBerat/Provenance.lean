/-
**Where a 200 comes from.**

Behind every live entry, every request that has passed oauth2-proxy and every allow there is the
same sequence: an identity from oauth2-proxy, the index write for its user and the session of the
cookie, and the answer of the entitlement query. A cookie value fixes the cache key and the session
key.

* `Sound`: what stands behind the entries, the requests and the answers given so far.
* `provenance`: over every run whose identities name a user that has a text.
* `unnamed_allowed`: one non-ASCII user, and the session is recorded for nobody.
-/

import Mathlib.Data.Set.Function
import OpenBerat.Instance
import OpenBerat.Lib.History

namespace OpenBerat.Instance

open Decide (Incoming Response authenticate gather)
open Lib (Everywhere Run everywhere_append everywhere_concat everywhere_nil)

section Provenance

variable {lib : Libraries}

/-! ### The sequence behind an entry -/

/-- oauth2-proxy, the index and the entitlement query, in that order. -/
def passed (source : Origin) (identity : Identity) (user session : Str)
    (found : Option Store.AppRules) : List Event :=
  [.authenticated source identity, .indexed source user session, .loaded source found]

/-- The sequence has happened, followed by the given events, and it made the cached data. -/
structure Sequence (lib : Libraries) (past tail : List Event) (source : Origin)
    (value user session : Str)
    (found : Option Store.AppRules) (cached : Cached) : Prop where
  happened : (passed source cached.identity user session found ++ tail).Sublist past
  text : lib.http.toStr cached.identity.sub = some user
  named : user ≠ []
  derived : lib.base64.sessionKey value cookieName = some session
  made : cached = cachedOf cached.identity found
  value : source.value = some value

/-- The sequence behind some data, whoever the user and whatever was found. -/
def Backed (lib : Libraries) (past tail : List Event) (source : Origin) (value : Str)
    (cached : Cached) : Prop :=
  ∃ user session found, Sequence lib past tail source value user session found cached

/-- What lets a request be answered from the cached data: its own sequence, or an earlier one with
the same cookie value and slug whose entry was still live when it was looked up. -/
def Justified (lib : Libraries) (past : List Event) (origin : Origin) (cached : Cached) : Prop :=
  ∃ value source, origin.value = some value ∧ source.slug = origin.slug ∧
    ((source = origin ∧ Backed lib past [] source value cached) ∨
      ∃ inserted looked, inserted ≤ looked ∧ looked - inserted < Cache.ttl ∧
        Backed lib past [.inserted source inserted, .hit origin looked] source value cached)

variable {past tail out : List Event} {source origin : Origin} {value : Str} {cached : Cached}

theorem Backed.append (backed : Backed lib past tail source value cached) (out : List Event) :
    Backed lib (past ++ out) tail source value cached := by
  obtain ⟨user, session, found, happened, text, named, key, made, same⟩ := backed
  exact ⟨user, session, found, happened.trans (List.sublist_append_left past out), text, named, key,
    made, same⟩

/-- One event more, and it is the next of the sequence. -/
theorem Backed.concat (backed : Backed lib past tail source value cached) (event : Event) :
    Backed lib (past ++ [event]) (tail ++ [event]) source value cached := by
  obtain ⟨user, session, found, happened, text, named, key, made, same⟩ := backed
  refine ⟨user, session, found, ?_, text, named, key, made, same⟩
  rw [← List.append_assoc]
  exact happened.append (List.Sublist.refl _)

theorem Justified.append (justified : Justified lib past origin cached) (out : List Event) :
    Justified lib (past ++ out) origin cached := by
  obtain ⟨value, source, shown, slug, ⟨own, backed⟩ | ⟨inserted, looked, order, live, backed⟩⟩ :=
    justified
  · exact ⟨value, source, shown, slug, Or.inl ⟨own, backed.append out⟩⟩
  · exact ⟨value, source, shown, slug, Or.inr ⟨inserted, looked, order, live, backed.append out⟩⟩

/-! ### A 200 -/

/-- What stands behind a 200. -/
structure Granted (lib : Libraries) (before : List Event) (origin : Origin) (now : DateTime)
    (response : Response) (source : Origin) (identity : Identity) (user session value : Str)
    (app : Store.AppRules) : Prop where
  shown : origin.value = some value
  same : source.value = some value
  slug : source.slug = origin.slug
  text : lib.http.toStr identity.sub = some user
  named : user ≠ []
  derived : lib.base64.sessionKey value cookieName = some session
  enabled : app.enabled = true
  allows : Policy.decide true app.rules origin.uri now = .allow
  headers : response.identity = some identity
  happened : (source = origin ∧
      (passed source identity user session (some app)).Sublist before) ∨
    ∃ inserted looked, inserted ≤ looked ∧ looked - inserted < Cache.ttl ∧
      (passed source identity user session (some app) ++
        [Event.inserted source inserted, Event.hit origin looked]).Sublist before

/-- A response with status 200 is an answer that is granted. -/
def Good (lib : Libraries) (before : List Event) (event : Event) : Prop :=
  ∀ response, event.response = some response → response.status = 200 →
    ∃ origin now source identity user session value app,
      event = .answered origin now response ∧
        Granted lib before origin now response source identity user session value app

theorem good_of_silent {event : Event} (silent : event.response = none) (before : List Event) :
    Good lib before event := by
  intro response shown
  rw [silent] at shown
  cases shown

theorem good_refused {request : Nat} {response : Response} (refused : response.status ≠ 200)
    (before : List Event) : Good lib before (.refused request response) := by
  intro other shown status
  cases shown
  exact absurd status refused

/-- An enabled entry has been made from an application that the query found enabled. -/
theorem enabled_of_cachedOf {identity : Identity} {found : Option Store.AppRules}
    (enabled : (cachedOf identity found).enabled = true) :
    ∃ app, found = some app ∧ app.enabled = true ∧ (cachedOf identity found).rules = app.rules := by
  cases found with
  | none => cases enabled
  | some app => exact ⟨app, rfl, enabled, rfl⟩

/-- An allow is taken on an enabled application. -/
theorem enabled_of_allow {enabled : Bool} {rules : List Rule} {uri : Str} {now : DateTime}
    (allowed : Policy.decide enabled rules uri now = .allow) : enabled = true := by
  cases enabled with
  | true => rfl
  | false =>
    unfold Policy.decide at allowed
    cases normal : Policy.readings uri with
    | error reason =>
      rw [normal] at allowed
      cases allowed
    | ok paths =>
      rw [normal] at allowed
      cases allowed

/-- **A justified answer is good.** -/
theorem good_answered {now : DateTime} {setCookie : List HeaderValue}
    (justified : Justified lib past origin cached) :
    Good lib past (.answered origin now
      (Decide.answered (cached.decision origin.uri now) cached.identity setCookie)) := by
  intro response shown status
  cases shown
  have allowed := Decide.status_answered.mp status
  have enabled : cached.enabled = true := enabled_of_allow allowed
  have granted : ∀ {tail source value}, Backed lib past tail source value cached →
      origin.value = some value → source.slug = origin.slug →
      ∃ user session app, app.enabled = true ∧
        Policy.decide true app.rules origin.uri now = .allow ∧
        Sequence lib past tail source value user session (some app) cached := by
    intro tail source value backed _ _
    obtain ⟨user, session, found, sequence⟩ := backed
    have made := sequence.made
    rw [made] at enabled
    obtain ⟨app, rfl, on, rules⟩ := enabled_of_cachedOf enabled
    refine ⟨user, session, app, on, ?_, sequence⟩
    rw [← rules, ← made]
    unfold Cached.decision at allowed
    rwa [made, enabled, ← made] at allowed
  obtain ⟨value, source, shown, slug, ⟨own, backed⟩ | ⟨inserted, looked, order, live, backed⟩⟩ :=
    justified
  · obtain ⟨user, session, app, on, allows, happened, text, named, key, _, same⟩ :=
      granted backed shown slug
    rw [List.append_nil] at happened
    exact ⟨origin, now, source, cached.identity, user, session, value, app, rfl, shown, same, slug,
      text, named, key, on, allows, rfl, Or.inl ⟨own, happened⟩⟩
  · obtain ⟨user, session, app, on, allows, happened, text, named, key, _, same⟩ :=
      granted backed shown slug
    exact ⟨origin, now, source, cached.identity, user, session, value, app, rfl, shown, same, slug,
      text, named, key, on, allows, rfl, Or.inr ⟨inserted, looked, order, live, happened⟩⟩

/-! ### The invariant -/

/-- What a request has behind it at each stage. -/
def StageBacked (lib : Libraries) (past : List Event) (request : Nat) : Stage lib → Prop
  | .indexing incoming identity _ session =>
    (∃ user, lib.http.toStr identity.sub = some user ∧ user ≠ []) ∧
      incoming.session = some session ∧
      [.authenticated (originOf request incoming) identity].Sublist past
  | .loading incoming identity _ session =>
    ∃ user, lib.http.toStr identity.sub = some user ∧ user ≠ [] ∧ incoming.session = some session ∧
      [.authenticated (originOf request incoming) identity,
        .indexed (originOf request incoming) user session].Sublist past
  | .filling incoming cached _ _ =>
    ∃ value, incoming.value = some value ∧
      Backed lib past [] (originOf request incoming) value cached
  | .answering incoming cached _ => Justified lib past (originOf request incoming) cached
  | _ => True

/-- The request at a stage. -/
def Stage.incoming? : Stage lib → Option (Incoming lib)
  | .looking incoming _ => some incoming
  | .reading incoming _ => some incoming
  | .queued incoming => some incoming
  | .authenticating incoming => some incoming
  | .indexing incoming _ _ _ => some incoming
  | .loading incoming _ _ _ => some incoming
  | .filling incoming _ _ _ => some incoming
  | .answering incoming _ _ => some incoming
  | _ => none

/-- The request shows a value that belongs to the run. -/
def Presents (presented : Set Str) (stage : Stage lib) : Prop :=
  ∀ incoming, stage.incoming? = some incoming → ∀ value, incoming.value = some value →
    value ∈ presented

/-- What stands behind a live entry. -/
def EntryBacked (lib : Libraries) (presented : Set Str) (past : List Event) (now : Instant)
    (key : Key) (entry : Cache.Entry) : Prop :=
  ∃ value source, value ∈ presented ∧ key = ⟨lib.sha256 (asBytes value), source.slug⟩ ∧
    entry.inserted ≤ now ∧
    Backed lib past [.inserted source entry.inserted] source value entry.cached

/-- What stands behind the entries, the requests and the responses. -/
structure Sound (presented : Set Str) (past : List Event) (state : State lib) : Prop where
  entries : ∀ key entry, state.cache.inner.entries.lookup key = some entry →
    EntryBacked lib presented past state.cache.now key entry
  stages : ∀ request, StageBacked lib past request (state.stages request)
  presents : ∀ request, Presents presented (state.stages request)
  responses : Everywhere (Good lib) past

variable {presented : Set Str} {state state' : State lib} {request : Nat}

theorem StageBacked.append {stage : Stage lib} (backed : StageBacked lib past request stage)
    (out : List Event) : StageBacked lib (past ++ out) request stage := by
  have more := List.sublist_append_left past out
  cases stage with
  | indexing incoming identity setCookie session =>
    obtain ⟨named, known, happened⟩ := backed
    exact ⟨named, known, happened.trans more⟩
  | loading incoming identity setCookie session =>
    obtain ⟨user, text, named, known, happened⟩ := backed
    exact ⟨user, text, named, known, happened.trans more⟩
  | filling incoming cached setCookie session =>
    obtain ⟨value, shown, backed⟩ := backed
    exact ⟨value, shown, backed.append out⟩
  | answering incoming cached setCookie => exact Justified.append backed out
  | _ => trivial

theorem EntryBacked.append {now later : Instant} {key : Key} {entry : Cache.Entry}
    (backed : EntryBacked lib presented past now key entry) (monotone : now ≤ later)
    (out : List Event) : EntryBacked lib presented (past ++ out) later key entry := by
  obtain ⟨value, source, known, same, old, backed⟩ := backed
  exact ⟨value, source, known, same, old.trans monotone, backed.append out⟩

/-- An entry that has only been counted in has the same behind it. -/
theorem EntryBacked.like {now : Instant} {key : Key} {entry earlier : Cache.Entry}
    (backed : EntryBacked lib presented past now key earlier) (like : entry.Like earlier) :
    EntryBacked lib presented past now key entry := by
  unfold EntryBacked
  rw [like.inserted, like.cached]
  exact backed

/-- What a step has to show. -/
theorem Sound.moved (sound : Sound presented past state) {cache : Cache.State}
    {fill : Nat → Option Nat} {stage : Stage lib}
    (entries : ∀ key entry, cache.inner.entries.lookup key = some entry →
      EntryBacked lib presented (past ++ out) cache.now key entry)
    (backed : StageBacked lib (past ++ out) request stage) (presents : Presents presented stage)
    (good : Everywhere (Good lib) (past ++ out)) :
    Sound presented (past ++ out)
      (⟨cache, fill, Function.update state.stages request stage⟩ : State lib) := by
  refine ⟨entries, ?_, ?_, good⟩
  · refine (Function.forall_update_iff state.stages fun other reached =>
      StageBacked lib (past ++ out) other reached).mpr ⟨backed, fun other _ => ?_⟩
    exact (sound.stages other).append out
  · exact (Function.forall_update_iff state.stages fun _ reached =>
      Presents presented reached).mpr ⟨presents, fun other _ => sound.presents other⟩

/-- Entries that are old ones, up to counting. -/
theorem Sound.within {cache : Cache.State} (sound : Sound presented past state)
    (within : Cache.Within state.cache.inner cache.inner) (monotone : state.cache.now ≤ cache.now)
    (out : List Event) : ∀ key entry, cache.inner.entries.lookup key = some entry →
      EntryBacked lib presented (past ++ out) cache.now key entry := by
  intro key entry found
  obtain ⟨earlier, old, like⟩ := within key entry found
  exact ((sound.entries key earlier old).append monotone out).like like

/-- A move on to another stage that leaves the cache alone. -/
theorem Sound.onward {stage : Stage lib} (sound : Sound presented past state)
    (silent : ∀ event ∈ out, event.response = none)
    (backed : StageBacked lib (past ++ out) request stage) (presents : Presents presented stage) :
    Sound presented (past ++ out) (⟨(state.next stage out).cache, (state.next stage out).fill,
      Function.update state.stages request stage⟩ : State lib) :=
  sound.moved (sound.within (.refl _) (le_refl _) out) backed presents
    (everywhere_append sound.responses fun event member => good_of_silent (silent event member))

/-- A refusal. -/
theorem Sound.refused {response : Response} {fill : Nat → Option Nat}
    (sound : Sound presented past state) (refused : response.status ≠ 200) :
    Sound presented (past ++ [.refused request response])
      (⟨state.cache, fill, Function.update state.stages request .done⟩ : State lib) := by
  refine sound.moved (sound.within (.refl _) (le_refl _) _) trivial ?_ ?_
  · intro incoming shown
    cases shown
  · exact everywhere_concat.mpr ⟨sound.responses, good_refused refused past⟩

/-! ### Moves -/

/-- oauth2-proxy names users that the text view can read. -/
def Named (lib : Libraries) : Label → Prop
  | .move _ (.authenticated response) => ∀ identity setCookie,
      authenticate response = .verified identity setCookie →
        (lib.http.toStr identity.sub).isSome = true
  | _ => True

/-- The cookie values of the run. -/
def Presented (lib : Libraries) (presented : Set Str) : Label → Prop
  | .arrive _ headers => ∀ incoming, gather lib headers = .ok incoming →
      ∀ value, incoming.value = some value → value ∈ presented
  | _ => True

theorem session_eq_some {incoming : Incoming lib} {session : Str} :
    incoming.session = some session ↔ ∃ value, incoming.value = some value ∧
      lib.base64.sessionKey value cookieName = some session :=
  Option.bind_eq_some_iff

/-- Behind a lookup that found nothing there is nothing new to show. -/
theorem missed_backed {incoming : Incoming lib} {locked : Bool} (past : List Event) :
    StageBacked lib past request (missed incoming locked) := by
  cases locked <;> trivial

theorem incoming?_missed {incoming : Incoming lib} {locked : Bool} :
    (missed incoming locked).incoming? = some incoming := by
  cases locked <;> rfl

/-- The next stage of the same request shows the same value. -/
theorem Sound.presents_of {current stage : Stage lib} (sound : Sound presented past state)
    (reached : state.stages request = current) (same : stage.incoming? = current.incoming?) :
    Presents presented stage := by
  unfold Presents
  rw [same, ← reached]
  exact sound.presents request

theorem sound_flag {moved : Moved lib} (sound : Sound presented past state)
    (advanced : advance state request .flag (state.stages request) = some moved) :
    Sound presented (past ++ moved.out)
      ⟨moved.cache, moved.fill, Function.update state.stages request moved.stage⟩ := by
  obtain ⟨incoming, locked, stage, ⟨_, rfl⟩ | ⟨_, rfl⟩⟩ := advance_flag advanced
  · refine sound.onward ?_ trivial (sound.presents_of stage rfl)
    intro event member
    rw [List.mem_singleton.mp member]
    rfl
  · refine sound.onward ?_ (missed_backed _) (sound.presents_of stage incoming?_missed)
    intro event member
    rw [List.mem_singleton.mp member]
    rfl

/-- **A hit**: the entry found is backed by the request that filled it. -/
theorem sound_read {moved : Moved lib} (sound : Sound presented past state)
    (distinct : Set.InjOn (fun value => lib.sha256 (asBytes value)) presented)
    (advanced : advance state request .read (state.stages request) = some moved) :
    Sound presented (past ++ moved.out)
      ⟨moved.cache, moved.fill, Function.update state.stages request moved.stage⟩ := by
  obtain ⟨incoming, locked, stage, ⟨key, cached, keyed, looked, rfl⟩ | ⟨_, rfl⟩⟩ :=
    advance_read advanced
  · have presents := sound.presents request
    rw [stage] at presents
    refine sound.onward ?_ ?_ (sound.presents_of stage rfl)
    · intro event member
      rw [List.mem_singleton.mp member]
      rfl
    · obtain ⟨value, shown, rfl⟩ := Incoming.key_eq_some.mp keyed
      unfold Cache.lookup at looked
      split at looked
      · cases looked
      · rename_i entry found
        by_cases live : state.cache.now - entry.inserted < Cache.ttl
        · rw [if_pos live] at looked
          obtain rfl := Option.some.inj looked
          obtain ⟨other, source, known, same, old, backed⟩ := sound.entries _ entry found
          have equal : value = other :=
            distinct (presents incoming rfl value shown) known (congrArg Key.cookie same)
          subst equal
          exact ⟨value, source, shown, (congrArg Key.slug same).symm,
            Or.inr ⟨entry.inserted, state.cache.now, old, live, backed.concat _⟩⟩
        · rw [if_neg live] at looked
          cases looked
  · refine sound.onward ?_ (missed_backed _) (sound.presents_of stage incoming?_missed)
    intro event member
    cases member

theorem sound_acquire {moved : Moved lib} (sound : Sound presented past state)
    (advanced : advance state request .acquire (state.stages request) = some moved) :
    Sound presented (past ++ moved.out)
      ⟨moved.cache, moved.fill, Function.update state.stages request moved.stage⟩ := by
  obtain ⟨incoming, key, stage, _, _, rfl⟩ := advance_acquire advanced
  refine sound.moved (sound.within (.refl _) (le_refl _) _) trivial (sound.presents_of stage rfl) ?_
  rw [List.append_nil]
  exact sound.responses

theorem sound_authenticated {moved : Moved lib} {response : Decide.AuthResponse}
    (sound : Sound presented past state)
    (named : Named lib (.move request (.authenticated response)))
    (advanced : advance state request (.authenticated response) (state.stages request) =
      some moved) :
    Sound presented (past ++ moved.out)
      ⟨moved.cache, moved.fill, Function.update state.stages request moved.stage⟩ := by
  obtain ⟨incoming, stage, ⟨identity, setCookie, session, verified, known, rfl⟩ |
    ⟨response, refused, rfl⟩⟩ := advance_authenticated advanced
  · refine sound.onward ?_ ?_ (sound.presents_of stage rfl)
    · intro event member
      rw [List.mem_singleton.mp member]
      rfl
    · obtain ⟨_, _, _, _, _, _, user⟩ := Decide.authenticate_eq_verified verified
      obtain ⟨text, read⟩ := Option.isSome_iff_exists.mp (named identity setCookie verified)
      exact ⟨⟨text, read, lib.http.ne_nil_of_toStr read user⟩, known,
        List.sublist_append_right _ _⟩
  · exact sound.refused refused

theorem sound_indexed {moved : Moved lib} {ok : Bool} (sound : Sound presented past state)
    (advanced : advance state request (.indexed ok) (state.stages request) = some moved) :
    Sound presented (past ++ moved.out)
      ⟨moved.cache, moved.fill, Function.update state.stages request moved.stage⟩ := by
  obtain ⟨incoming, identity, setCookie, session, stage, ⟨_, rfl⟩ | ⟨_, rfl⟩⟩ :=
    advance_indexed advanced
  · have backed := sound.stages request
    rw [stage] at backed
    obtain ⟨⟨user, text, named⟩, known, happened⟩ := backed
    refine sound.onward ?_ ?_ (sound.presents_of stage rfl)
    · intro event member
      rw [List.mem_singleton.mp member]
      rfl
    · have read : lib.http.text identity.sub = user := by
        unfold HeaderText.text
        rw [text]
        rfl
      refine ⟨user, text, named, known, ?_⟩
      rw [read]
      exact happened.append (List.Sublist.refl _)
  · exact sound.refused (Decide.status_refuse _)

theorem sound_loaded {moved : Moved lib} {query : Query} (sound : Sound presented past state)
    (advanced : advance state request (.loaded query) (state.stages request) = some moved) :
    Sound presented (past ++ moved.out)
      ⟨moved.cache, moved.fill, Function.update state.stages request moved.stage⟩ := by
  obtain ⟨incoming, identity, setCookie, session, stage, ⟨found, _, rfl⟩ | ⟨_, rfl⟩⟩ :=
    advance_loaded advanced
  · have backed := sound.stages request
    rw [stage] at backed
    obtain ⟨user, text, named, known, happened⟩ := backed
    refine sound.onward ?_ ?_ (sound.presents_of stage rfl)
    · intro event member
      rw [List.mem_singleton.mp member]
      rfl
    · obtain ⟨value, shown, derived⟩ := session_eq_some.mp known
      have same : (cachedOf identity found).identity = identity := by
        cases found <;> rfl
      refine ⟨value, shown, user, session, found, ?_, ?_, named, derived, ?_, shown⟩
      · rw [List.append_nil, same]
        exact happened.append (List.Sublist.refl _)
      · rw [same]
        exact text
      · rw [same]
  · exact sound.refused (Decide.status_refuse _)

/-- **An insertion**: the fresh entry has the sequence of its request behind it. -/
theorem sound_insert {moved : Moved lib} {plan : Lib.Plan Key} (sound : Sound presented past state)
    (advanced : advance state request (.insert plan) (state.stages request) = some moved) :
    Sound presented (past ++ moved.out)
      ⟨moved.cache, moved.fill, Function.update state.stages request moved.stage⟩ := by
  obtain ⟨incoming, cached, setCookie, session, stage,
      ⟨_, rfl⟩ | ⟨key, cache, keyed, stepped, rfl⟩⟩ :=
    advance_insert advanced
  · have backed := sound.stages request
    rw [stage] at backed
    obtain ⟨value, shown, backed⟩ := backed
    refine sound.onward ?_ ?_ (sound.presents_of stage rfl)
    · intro event member
      cases member
    · exact ⟨value, _, shown, rfl, Or.inl ⟨rfl, backed.append _⟩⟩
  · have backed := sound.stages request
    have presents := sound.presents request
    rw [stage] at backed presents
    obtain ⟨value, shown, backed⟩ := backed
    obtain ⟨_, rfl⟩ := Cache.step_insert stepped
    refine sound.moved ?_ ?_ (sound.presents_of stage rfl) ?_
    · intro other entry found
      rcases Cache.lookup_of_insert found with ⟨rfl, rfl⟩ | ⟨_, old⟩
      · obtain ⟨value', shown', rfl⟩ := Incoming.key_eq_some.mp keyed
        obtain rfl : value = value' := Option.some.inj (shown.symm.trans shown')
        exact ⟨value, originOf request incoming, presents incoming rfl value shown, rfl, le_refl _,
          backed.concat _⟩
      · exact (sound.entries other entry old).append (le_refl _) _
    · exact ⟨value, _, shown, rfl, Or.inl ⟨rfl, backed.append _⟩⟩
    · exact everywhere_concat.mpr ⟨sound.responses, good_of_silent rfl past⟩

/-- **An answer.** -/
theorem sound_answer {moved : Moved lib} {now seen : DateTime} (sound : Sound presented past state)
    (advanced : advance state request (.answer now seen) (state.stages request) = some moved) :
    Sound presented (past ++ moved.out)
      ⟨moved.cache, moved.fill, Function.update state.stages request moved.stage⟩ := by
  obtain ⟨incoming, cached, setCookie, cache, out, stage, stepped, rfl⟩ := advance_answer advanced
  have justified := sound.stages request
  rw [stage] at justified
  obtain ⟨within, _, _, clock⟩ := Cache.within_of_answer stepped
  refine sound.moved (sound.within within (le_of_eq clock.symm) _) trivial ?_ ?_
  · intro other shown
    cases shown
  · rw [← List.append_assoc, everywhere_concat]
    refine ⟨everywhere_append sound.responses fun event member => ?_, ?_⟩
    · obtain ⟨_, _, rfl⟩ := List.mem_map.mp member
      exact good_of_silent rfl
    · exact good_answered (Justified.append justified _)

theorem sound_cancel {moved : Moved lib} (sound : Sound presented past state)
    (advanced : advance state request .cancel (state.stages request) = some moved) :
    Sound presented (past ++ moved.out)
      ⟨moved.cache, moved.fill, Function.update state.stages request moved.stage⟩ := by
  obtain rfl := advance_cancel advanced
  refine sound.moved (sound.within (.refl _) (le_refl _) _) trivial ?_ ?_
  · intro other shown
    cases shown
  · rw [List.append_nil]
    exact sound.responses

/-! ### A run -/

/-- **One step.** -/
theorem sound_step {label : Label} (sound : Sound presented past state)
    (distinct : Set.InjOn (fun value => lib.sha256 (asBytes value)) presented)
    (shows : Presented lib presented label) (named : Named lib label)
    (stepped : step state label = some (state', out)) : Sound presented (past ++ out) state' := by
  cases label with
  | arrive request headers =>
    obtain ⟨_, ⟨response, refused, rfl, rfl⟩ | ⟨incoming, stage, gathered, rfl, reached, rfl⟩⟩ :=
      step_arrive stepped
    · exact sound.refused refused
    · refine sound.moved (sound.within (.refl _) (le_refl _) _) ?_ ?_ ?_
      · rcases reached with rfl | ⟨_, rfl⟩
        · trivial
        · trivial
      · intro other shown value
        have same : other = incoming := by
          rcases reached with rfl | ⟨_, rfl⟩
          · exact (Option.some.inj shown).symm
          · exact (Option.some.inj shown).symm
        subst same
        exact shows other gathered value
      · exact everywhere_concat.mpr ⟨sound.responses, good_of_silent rfl past⟩
  | move request move =>
    obtain ⟨moved, advanced, rfl, rfl⟩ := step_move stepped
    cases move with
    | flag => exact sound_flag sound advanced
    | read => exact sound_read sound distinct advanced
    | acquire => exact sound_acquire sound advanced
    | authenticated response => exact sound_authenticated sound named advanced
    | indexed ok => exact sound_indexed sound advanced
    | loaded query => exact sound_loaded sound advanced
    | insert plan => exact sound_insert sound advanced
    | answer now seen => exact sound_answer sound advanced
    | cancel => exact sound_cancel sound advanced
  | cache label =>
    obtain ⟨cache, seen, quiet, taken, rfl, rfl⟩ := step_cache stepped
    obtain ⟨within, monotone⟩ := Cache.within_of_background quiet taken
    refine ⟨sound.within within monotone _, fun request => (sound.stages request).append _,
      sound.presents, ?_⟩
    refine everywhere_append sound.responses fun event member => ?_
    obtain ⟨_, _, rfl⟩ := List.mem_map.mp member
    exact good_of_silent rfl

theorem sound_init : Sound presented [] (.init lib) := by
  refine ⟨?_, fun _ => trivial, ?_, everywhere_nil _⟩
  · intro key entry found
    cases found
  · intro request incoming shown
    cases shown

/-- **The provenance of every 200**, over every run whose identities name a user that has a text;
SHA-256 is taken to be free of collisions on the cookie values of the run. -/
theorem provenance (presented : Set Str)
    (distinct : Set.InjOn (fun value => lib.sha256 (asBytes value)) presented)
    {trace : List Event} {state : State lib}
    (run : Run step (fun _ label => Presented lib presented label ∧ Named lib label) (.init lib)
      trace state) :
    ∀ before event after response, trace = before ++ event :: after →
      event.response = some response → response.status = 200 →
        ∃ origin now source identity user session value app,
          event = .answered origin now response ∧
            Granted lib before origin now response source identity user session value app := by
  have sound : Sound presented trace state := by
    induction run with
    | refl => exact sound_init
    | next _ permitted stepped ih =>
      exact sound_step ih distinct permitted.1 permitted.2 stepped
  intro before event after response shape
  exact sound.responses before event after shape response

/-! ### One request alone -/

theorem step_move_eq {move : Move} {stage : Stage lib} {moved : Moved lib}
    (reached : state.stages request = stage)
    (advanced : advance state request move stage = some moved) :
    step state (.move request move) =
      some (⟨moved.cache, moved.fill, Function.update state.stages request moved.stage⟩,
        moved.out) := by
  simp only [step, reached, advanced]

/-- The labels of one request on an instance that has no subscription. -/
def alone (headers : Headers) (response : Decide.AuthResponse) (app : Store.AppRules)
    (now seen : DateTime) : List Label :=
  [.arrive 0 headers, .move 0 .flag, .move 0 .acquire, .move 0 .flag,
    .move 0 (.authenticated response), .move 0 (.indexed true),
    .move 0 (.loaded fun _ _ _ => some (some app)), .move 0 (.insert (Lib.Plan.table Key)),
    .move 0 (.answer now seen)]

/-- What such a run shows before the response. -/
def aloneBefore (origin : Origin) (identity : Identity) (sub session : Str) (app : Store.AppRules)
    (taken : Cache.Taken) : List Event :=
  [.arrived origin, .consulted origin false, .consulted origin false,
    .authenticated origin identity, .indexed origin sub session, .loaded origin (some app),
    .inserted origin 0, .audit (.took taken)]

/-- **A request that meets nobody** goes all the way. -/
theorem run_alone {allowed : State lib → Label → Prop} {headers : Headers}
    {response : Decide.AuthResponse} {incoming : Incoming lib} {key : Key} {identity : Identity}
    {setCookie : List HeaderValue} {session : Str} {app : Store.AppRules} {now seen : DateTime}
    (permitted : ∀ label ∈ alone headers response app now seen, ∀ state, allowed state label)
    (gathered : gather lib headers = .ok incoming) (keyed : incoming.request.key = some key)
    (verified : authenticate response = .verified identity setCookie)
    (known : incoming.session = some session) :
    ∃ taken state, Run step allowed (.init lib)
      (aloneBefore (originOf 0 incoming) identity (lib.http.text identity.sub) session app taken ++
        [.answered (originOf 0 incoming) now (Decide.answered
          ((cachedOf identity (some app)).decision incoming.request.uri now) identity setCookie)])
      state := by
  have arrived : step (.init lib) (.arrive 0 headers) =
      some (⟨.init, fun _ => none, Function.update (fun _ => .idle) 0 (.looking incoming false)⟩,
        [.arrived (originOf 0 incoming)]) := by
    simp only [step, State.init, gathered, keyed, Option.isSome_some, if_true]
  have acquired : ∀ stages : Nat → Stage lib,
      advance (⟨.init, fun _ => none, stages⟩ : State lib) 0 .acquire (.queued incoming) =
        some ⟨.init, Function.update (fun _ => none) (shardOf lib key) (some 0),
          .looking incoming true, []⟩ := by
    intro stages
    simp only [advance, keyed, if_true]
  have flagged : ∀ (fill : Nat → Option Nat) (stages : Nat → Stage lib) (locked : Bool),
      advance (⟨.init, fill, stages⟩ : State lib) 0 .flag (.looking incoming locked) =
        some ⟨.init, fill, missed incoming locked, [.consulted (originOf 0 incoming) false]⟩ :=
    fun _ _ _ => rfl
  have authenticated : ∀ (fill : Nat → Option Nat) (stages : Nat → Stage lib),
      advance (⟨.init, fill, stages⟩ : State lib) 0 (.authenticated response)
        (.authenticating incoming) =
        some ⟨.init, fill, .indexing incoming identity setCookie session,
          [.authenticated (originOf 0 incoming) identity]⟩ := by
    intro fill stages
    simp only [advance, verified, known]
    rfl
  have indexed : ∀ (fill : Nat → Option Nat) (stages : Nat → Stage lib),
      advance (⟨.init, fill, stages⟩ : State lib) 0 (.indexed true)
        (.indexing incoming identity setCookie session) =
        some ⟨.init, fill, .loading incoming identity setCookie session,
          [.indexed (originOf 0 incoming) (lib.http.text identity.sub) session]⟩ :=
    fun _ _ => rfl
  have loaded : ∀ (fill : Nat → Option Nat) (stages : Nat → Stage lib),
      advance (⟨.init, fill, stages⟩ : State lib) 0 (.loaded fun _ _ _ => some (some app))
        (.loading incoming identity setCookie session) =
        some ⟨.init, fill, .filling incoming (cachedOf identity (some app)) setCookie session,
          [.loaded (originOf 0 incoming) (some app)]⟩ :=
    fun _ _ => rfl
  have inserted : ∀ (fill : Nat → Option Nat) (stages : Nat → Stage lib),
      ∃ cache, advance (⟨.init, fill, stages⟩ : State lib) 0 (.insert (Lib.Plan.table Key))
        (.filling incoming (cachedOf identity (some app)) setCookie session) =
        some ⟨cache, fill, .answering incoming (cachedOf identity (some app)) setCookie,
          [.inserted (originOf 0 incoming) 0]⟩ := by
    intro fill stages
    obtain ⟨cache, stepped⟩ := Cache.exists_step_insert lib.http lib.pathHash .init key
      (lib.http.text (cachedOf identity (some app)).identity.sub) (cachedOf identity (some app))
      (Lib.Plan.table Key)
    refine ⟨cache, ?_⟩
    simp only [advance, keyed, stepped]
    rfl
  have answered : ∀ (cache : Cache.State) (fill : Nat → Option Nat) (stages : Nat → Stage lib),
      ∃ taken cache', advance (⟨cache, fill, stages⟩ : State lib) 0 (.answer now seen)
        (.answering incoming (cachedOf identity (some app)) setCookie) =
        some ⟨cache', release fill 0, .done,
          [.audit (.took taken), .answered (originOf 0 incoming) now
          (Decide.answered ((cachedOf identity (some app)).decision incoming.request.uri now)
            identity
            setCookie)]⟩ := by
    intro cache fill stages
    obtain ⟨taken, cache', stepped⟩ := Cache.exists_step_answer lib.http lib.pathHash cache
      incoming.request (cachedOf identity (some app)) now seen
    refine ⟨taken, cache', ?_⟩
    simp only [advance, stepped]
    rfl
  have allow : ∀ (place : Nat) (inside : place < 9) (state : State lib),
      allowed state (alone headers response app now seen)[place] :=
    fun place inside state => permitted _ (List.getElem_mem _) state
  have first : Run step allowed (.init lib) _ _ := Run.single (allow 0 (by decide) _) arrived
  have second := first.next (allow 1 (by decide) _) 
    (step_move_eq rfl (flagged _ _ _))
  have third := second.next (allow 2 (by decide) _)
    (step_move_eq rfl (acquired _))
  have fourth := third.next (allow 3 (by decide) _)
    (step_move_eq rfl (flagged _ _ _))
  have fifth := fourth.next (allow 4 (by decide) _)
    (step_move_eq rfl (authenticated _ _))
  have sixth := fifth.next (allow 5 (by decide) _)
    (step_move_eq rfl (indexed _ _))
  have seventh := sixth.next (allow 6 (by decide) _)
    (step_move_eq rfl (loaded _ _))
  obtain ⟨cache, filled⟩ := inserted _ _
  have eighth := seventh.next (allow 7 (by decide) _) (step_move_eq rfl filled)
  obtain ⟨taken, last, done⟩ := answered _ _ _
  have ninth := eighth.next (allow 8 (by decide) _) (step_move_eq rfl done)
  exact ⟨taken, _, ninth⟩

end Provenance

/-! ### One visit -/

namespace Visit

/-- The value of a session cookie. -/
def value : Str := "djIuWDI5aGRYUm9NbDl3Y205NGVTMWguY3c|1|s".toList

/-- The session key in it. -/
def session : Str := "_oauth2_proxy-a".toList

/-- The libraries on the cookie of the visit. -/
def lib : Libraries where
  http := .documented
  sha256 := fun _ => 0x82bc36a76528d44436c1a4d8423d460bc20e5a32c4cf3e751c44246e365ee214#256
  base64 :=
    { urlSafeNoPad := fun text =>
        if text = "djIuWDI5aGRYUm9NbDl3Y205NGVTMWguY3c".toList then
          some (asBytes "v2.X29hdXRoMl9wcm94eS1h.cw".toList)
        else if text = "X29hdXRoMl9wcm94eS1h".toList then some (asBytes session)
        else none
      standardNoPad := fun _ => none
      standard := fun _ => none }
  parseIp := fun _ => some (.v4 0x0a000001#32)
  pathHash := fun _ => 0
  keyHash := fun _ => 0

/-- The headers of a request with that cookie. -/
def headers : Headers := fun name =>
  if name = "x-app-slug".toList then some (asBytes "wiki".toList)
  else if name = "x-original-uri".toList then some (asBytes ['/'])
  else if name = "x-original-method".toList then some (asBytes "GET".toList)
  else if name = "x-real-ip".toList then some (asBytes "10.0.0.1".toList)
  else if name = "x-request-id".toList then some (asBytes "r1".toList)
  else if name = "cookie".toList then some (asBytes ("_oauth2_proxy=".toList ++ value))
  else none

/-- oauth2-proxy's answer, with nothing but the user in it. -/
def response (user : HeaderValue) : Decide.AuthResponse :=
  .answered 202 (fun name => if name = "x-auth-request-user".toList then some user else none) []

/-- An identity that is a user and nothing else. -/
def identity (user : HeaderValue) : Identity := ⟨user, [], [], []⟩

/-- An application with an allow on everything. -/
def app : Store.AppRules := ⟨1, true, [⟨.allow, [], none⟩]⟩

theorem gathers : ∃ incoming key, gather lib headers = .ok incoming ∧
    incoming.request.key = some key ∧ incoming.session = some session ∧
    incoming.value = some value ∧ incoming.request.uri = ['/'] := by
  have shown : ((gather lib headers).toOption.map fun incoming =>
      (incoming.request.key.isSome, incoming.session, incoming.value, incoming.request.uri)) =
      some (true, some session, some value, ['/']) := by
    decide +kernel
  cases gathered : gather lib headers with
  | error reason =>
    rw [gathered] at shown
    cases shown
  | ok incoming =>
    rw [gathered] at shown
    have parts := Option.some.inj shown
    obtain ⟨key, keyed⟩ := Option.isSome_iff_exists.mp (congrArg Prod.fst parts)
    exact ⟨incoming, key, rfl, keyed, congrArg (fun parts => parts.2.1) parts,
      congrArg (fun parts => parts.2.2.1) parts, congrArg (fun parts => parts.2.2.2) parts⟩

theorem verified {user : HeaderValue} (named : user ≠ []) :
    authenticate (response user) = .verified (identity user) [] := by
  have other : ∀ name : String, name.toList ≠ "x-auth-request-user".toList →
      ((if name.toList = "x-auth-request-user".toList then some user else none).getD []) = [] := by
    intro name different
    rw [if_neg different]
    rfl
  show (if user ≠ [] then Decide.Authentication.verified _ _ else _) = _
  rw [if_pos named]
  dsimp only
  rw [other _ (by decide), other _ (by decide), other _ (by decide)]
  rfl

/-- The labels of the visit show one cookie value. -/
theorem presented {user : HeaderValue} :
    ∀ label ∈ alone headers (response user) app 0 0, Presented lib {value} label := by
  obtain ⟨incoming, key, gathered, _, _, shown, _⟩ := gathers
  simp only [alone, List.forall_mem_cons]
  refine ⟨?_, trivial, trivial, trivial, trivial, trivial, trivial, trivial, trivial,
    fun _ member => nomatch member⟩
  intro other same text found
  rw [gathered] at same
  obtain rfl := Except.ok.inj same
  rw [shown] at found
  exact (Option.some.inj found).symm

/-- A readable user keeps the labels named. -/
theorem named {user : HeaderValue} (text : (lib.http.toStr user).isSome = true)
    (filled : user ≠ []) :
    ∀ label ∈ alone headers (response user) app 0 0, Named lib label := by
  simp only [alone, List.forall_mem_cons]
  refine ⟨trivial, trivial, trivial, trivial, ?_, trivial, trivial, trivial, trivial,
    fun _ member => nomatch member⟩
  intro other setCookie same
  rw [verified filled] at same
  cases same
  exact text

theorem run {allowed : State lib → Label → Prop} {user : HeaderValue} (named : user ≠ [])
    (permitted : ∀ label ∈ alone headers (response user) app 0 0, ∀ state, allowed state label) :
    ∃ before origin state, Run step allowed (.init lib)
      (before ++ [.answered origin 0 (Decide.answered .allow (identity user) [])]) state := by
  obtain ⟨incoming, key, gathered, keyed, known, _, uri⟩ := gathers
  obtain ⟨taken, state, run⟩ := run_alone permitted gathered keyed (verified named) known
  rw [uri] at run
  have decision : (cachedOf (identity user) (some app)).decision ['/'] 0 = .allow := by
    show Policy.decide true [⟨.allow, [], none⟩] ['/'] 0 = .allow
    decide +kernel
  rw [decision] at run
  exact ⟨_, _, state, run⟩

end Visit

open Visit in
/-- A user with a readable name is let in, with everything behind it. -/
theorem provenance_visit : ∃ before origin source identity user session value app,
    Granted lib before origin 0 (Decide.answered .allow (Visit.identity (asBytes "u1".toList)) [])
      source identity user session value app := by
  have permitted : ∀ label ∈ alone headers (response (asBytes "u1".toList)) app 0 0,
      ∀ _ : State lib, Presented lib {value} label ∧ Named lib label :=
    fun label member _ =>
      ⟨presented label member, Visit.named (by decide +kernel) (by decide) label member⟩
  obtain ⟨before, origin, state, run⟩ := run (by decide) permitted
  obtain ⟨origin', now, source, identity, user, session, value, app, same, granted⟩ :=
    provenance {Visit.value} (Set.injOn_singleton _ _) run before _ [] _ rfl rfl rfl
  cases same
  exact ⟨before, origin, source, identity, user, session, value, app, granted⟩

open Visit in
/-- **A user that is no visible ASCII is let in**, and the index has recorded the session for
nobody. -/
theorem unnamed_allowed : ∃ trace state,
    Run step (fun _ label => Presented lib {value} label) (.init lib) trace state ∧
      ∃ before event after response, trace = before ++ event :: after ∧
        event.response = some response ∧ response.status = 200 ∧
        ∀ origin now source identity user session value app,
          ¬ Granted lib before origin now response source identity user session value app := by
  obtain ⟨before, origin, state, run⟩ :=
    @run (fun _ label => Presented lib {value} label) (asBytes "ü".toList) (by decide +kernel)
      fun label member _ => presented label member
  refine ⟨_, state, run, before, _, [], _, rfl, rfl, rfl, ?_⟩
  intro _ now source identity user session value app granted
  obtain rfl := Option.some.inj granted.headers
  have text := granted.text
  rw [show lib.http.toStr (Visit.identity (asBytes "ü".toList)).sub =
    none by decide +kernel] at text
  cases text

end OpenBerat.Instance
