/-
**One instance: the requests in flight over one cache.**

Each request is a task that runs from one await, or one critical section, to the next: it loads the
subscription flag, reads the cache, waits for its fill lock, waits for oauth2-proxy, for the index
and for the entitlement query, inserts, and answers. In between anything else may happen to the
cache.

* `advance_flag`, `advance_read`, …, `advance_answer`: what one move of a request can do.
* `step_arrive`, `step_move`, `step_cache`: what one step of the instance can do;
  `answered_of_step`: which step answers from data; `stages_of_step`: what a step leaves alone.
-/

import OpenBerat.Cache.Entries
import OpenBerat.Decide

namespace OpenBerat.Instance

open Decide (AuthResponse Incoming Response authenticate gather refuse)
open Lib (Plan)

variable (lib : Libraries)

/-! ### Requests -/

/-- Where a request stands. `locked` says that it holds its fill lock. -/
inductive Stage
  | idle
  | looking (incoming : Incoming lib) (locked : Bool)
  | reading (incoming : Incoming lib) (locked : Bool)
  | queued (incoming : Incoming lib)
  | authenticating (incoming : Incoming lib)
  | indexing (incoming : Incoming lib) (identity : Identity) (setCookie : List HeaderValue)
      (session : Str)
  | loading (incoming : Incoming lib) (identity : Identity) (setCookie : List HeaderValue)
      (session : Str)
  | filling (incoming : Incoming lib) (cached : Cached) (setCookie : List HeaderValue)
      (session : Str)
  | answering (incoming : Incoming lib) (cached : Cached) (setCookie : List HeaderValue)
  | done

/-- One instance: its cache, its fill locks, and where each request stands. -/
structure State where
  cache : Cache.State
  /-- Which request holds a fill lock. -/
  fill : Nat → Option Nat
  stages : Nat → Stage lib

/-- An instance as it starts. -/
def State.init : State lib :=
  ⟨.init, fun _ => none, fun _ => .idle⟩

/-- What the next move of a request brings, the answers of the outside included. -/
inductive Move
  | flag
  | read
  | acquire
  | authenticated (response : AuthResponse)
  | indexed (ok : Bool)
  | loaded (query : Query)
  | insert (plan : Plan Key)
  | answer (now seen : DateTime)
  | cancel

/-- A request arrives or moves, or something else happens to the cache. -/
inductive Label
  | arrive (request : Nat) (headers : Headers)
  | move (request : Nat) (move : Move)
  | cache (label : Cache.Label)

/-- What a request is for. -/
structure Origin where
  request : Nat
  value : Option Str
  slug : Str
  uri : Str
  deriving DecidableEq

/-- What a run shows of the requests. -/
inductive Event
  | arrived (origin : Origin)
  | consulted (origin : Origin) (live : Bool)
  | hit (origin : Origin) (time : Instant)
  | authenticated (origin : Origin) (identity : Identity)
  | indexed (origin : Origin) (sub session : Str)
  | loaded (origin : Origin) (found : Option Store.AppRules)
  | inserted (origin : Origin) (time : Instant)
  | refused (request : Nat) (response : Response)
  | answered (origin : Origin) (now : DateTime) (response : Response)
  | audit (seen : Cache.Seen)
  deriving DecidableEq

/-- The response an event shows. -/
def Event.response : Event → Option Response
  | .refused _ response => some response
  | .answered _ _ response => some response
  | _ => none

variable {lib}

/-- What the events of a request say of it. -/
def originOf (request : Nat) (incoming : Incoming lib) : Origin :=
  { request := request
    value := incoming.value
    slug := incoming.request.slug
    uri := incoming.request.uri }

/-! ### The machine -/

/-- `FILL_SHARDS`. -/
def fillShards : Nat := 16

/-- The shard of a key. -/
def shardOf (lib : Libraries) (key : Key) : Nat :=
  (lib.keyHash key).toNat % fillShards

/-- The guard of a request is dropped. -/
def release (fill : Nat → Option Nat) (request : Nat) : Nat → Option Nat :=
  fun shard => if fill shard = some request then none else fill shard

/-- What a move leaves behind. -/
structure Moved (lib : Libraries) where
  cache : Cache.State
  fill : Nat → Option Nat
  stage : Stage lib
  out : List Event

/-- On to another stage. -/
def State.next (state : State lib) (stage : Stage lib) (out : List Event) : Moved lib :=
  ⟨state.cache, state.fill, stage, out⟩

/-- A response that is no decision ends the request. -/
def State.refused (state : State lib) (request : Nat) (response : Response) : Moved lib :=
  ⟨state.cache, release state.fill request, .done, [.refused request response]⟩

/-- Behind a lookup that found nothing. -/
def missed (incoming : Incoming lib) (locked : Bool) : Stage lib :=
  if locked then .authenticating incoming else .queued incoming

/-- The awaits at which a request can be dropped with its connection. -/
def Stage.awaits : Stage lib → Bool
  | .queued _ => true
  | .authenticating _ => true
  | .indexing .. => true
  | .loading .. => true
  | _ => false

/-- One move of a request, nothing where it does not fit its stage. -/
def advance (state : State lib) (request : Nat) : Move → Stage lib → Option (Moved lib)
  | .flag, .looking incoming locked =>
    let origin := originOf request incoming
    if state.cache.subscribed then
      some (state.next (.reading incoming locked) [.consulted origin true])
    else some (state.next (missed incoming locked) [.consulted origin false])
  | .read, .reading incoming locked =>
    match incoming.request.key.bind (Cache.lookup state.cache.now state.cache.inner) with
    | some cached =>
      some (state.next (.answering incoming cached [])
        [.hit (originOf request incoming) state.cache.now])
    | none => some (state.next (missed incoming locked) [])
  | .acquire, .queued incoming =>
    match incoming.request.key with
    | none => none
    | some key =>
      if state.fill (shardOf lib key) = none then
        some ⟨state.cache, Function.update state.fill (shardOf lib key) (some request),
          .looking incoming true, []⟩
      else none
  | .authenticated response, .authenticating incoming =>
    match authenticate response with
    | .anonymous => some (state.refused request Decide.unauthorized)
    | .unavailable => some (state.refused request (refuse .authUnavailable))
    | .verified identity setCookie =>
      match incoming.session with
      | none => some (state.refused request (refuse .storeUnavailable))
      | some session =>
        some (state.next (.indexing incoming identity setCookie session)
          [.authenticated (originOf request incoming) identity])
  | .indexed ok, .indexing incoming identity setCookie session =>
    if ok then
      some (state.next (.loading incoming identity setCookie session)
        [.indexed (originOf request incoming) (lib.http.text identity.sub) session])
    else some (state.refused request (refuse .storeUnavailable))
  | .loaded query, .loading incoming identity setCookie session =>
    match query incoming.request.slug (lib.http.text identity.sub) (groupsOf lib.http identity) with
    | none => some (state.refused request (refuse .storeUnavailable))
    | some found =>
      some (state.next (.filling incoming (cachedOf identity found) setCookie session)
        [.loaded (originOf request incoming) found])
  | .insert plan, .filling incoming cached setCookie _ =>
    match incoming.request.key with
    | none => some (state.next (.answering incoming cached setCookie) [])
    | some key =>
      match Cache.step lib.http lib.pathHash state.cache
          (.insert key (lib.http.text cached.identity.sub) cached plan) with
      | none => none
      | some (cache, out) =>
        some ⟨cache, state.fill, .answering incoming cached setCookie,
          .inserted (originOf request incoming) state.cache.now :: out.map .audit⟩
  | .answer now seen, .answering incoming cached setCookie =>
    match Cache.step lib.http lib.pathHash state.cache
        (.answer incoming.request cached now seen) with
    | none => none
    | some (cache, out) =>
      some ⟨cache, release state.fill request, .done, out.map .audit ++
        [.answered (originOf request incoming) now
          (Decide.answered (cached.decision incoming.request.uri now) cached.identity setCookie)]⟩
  | .cancel, stage =>
    if stage.awaits then some ⟨state.cache, release state.fill request, .done, []⟩ else none
  | _, _ => none

/-- One step of the instance, and what it shows. -/
def step (state : State lib) : Label → Option (State lib × List Event)
  | .arrive request headers =>
    match state.stages request with
    | .idle =>
      match gather lib headers with
      | .error reason =>
        some ({ state with stages := Function.update state.stages request .done },
          [.refused request (refuse reason)])
      | .ok incoming =>
        let stage := if incoming.request.key.isSome then .looking incoming false
          else .authenticating incoming
        some ({ state with stages := Function.update state.stages request stage },
          [.arrived (originOf request incoming)])
    | _ => none
  | .move request move =>
    match advance state request move (state.stages request) with
    | none => none
    | some moved =>
      some (⟨moved.cache, moved.fill, Function.update state.stages request moved.stage⟩, moved.out)
  | .cache label =>
    if label.background then
      match Cache.step lib.http lib.pathHash state.cache label with
      | none => none
      | some (cache, out) => some ({ state with cache := cache }, out.map .audit)
    else none

/-! ### What one move does -/

section Moves

variable {state : State lib} {request : Nat} {stage : Stage lib} {moved : Moved lib}

theorem advance_flag (advanced : advance state request .flag stage = some moved) :
    ∃ incoming locked, stage = .looking incoming locked ∧
      ((state.cache.subscribed = true ∧ moved = state.next (.reading incoming locked)
          [.consulted (originOf request incoming) true]) ∨
        (state.cache.subscribed = false ∧ moved = state.next (missed incoming locked)
          [.consulted (originOf request incoming) false])) := by
  cases stage with
  | looking incoming locked =>
    refine ⟨incoming, locked, rfl, ?_⟩
    by_cases live : state.cache.subscribed = true
    · simp only [advance, if_pos live] at advanced
      exact Or.inl ⟨live, (Option.some.inj advanced).symm⟩
    · simp only [advance, if_neg live] at advanced
      exact Or.inr ⟨Bool.eq_false_iff.mpr live, (Option.some.inj advanced).symm⟩
  | _ => cases advanced

theorem advance_read (advanced : advance state request .read stage = some moved) :
    ∃ incoming locked, stage = .reading incoming locked ∧
      ((∃ key cached, incoming.request.key = some key ∧
          Cache.lookup state.cache.now state.cache.inner key = some cached ∧
          moved = state.next (.answering incoming cached [])
            [.hit (originOf request incoming) state.cache.now]) ∨
        incoming.request.key.bind (Cache.lookup state.cache.now state.cache.inner) = none ∧
          moved = state.next (missed incoming locked) []) := by
  cases stage with
  | reading incoming locked =>
    refine ⟨incoming, locked, rfl, ?_⟩
    cases found : incoming.request.key.bind (Cache.lookup state.cache.now state.cache.inner) with
    | none =>
      simp only [advance, found] at advanced
      exact Or.inr ⟨rfl, (Option.some.inj advanced).symm⟩
    | some cached =>
      simp only [advance, found] at advanced
      obtain ⟨key, keyed, looked⟩ := Option.bind_eq_some_iff.mp found
      exact Or.inl ⟨key, cached, keyed, looked, (Option.some.inj advanced).symm⟩
  | _ => cases advanced

theorem advance_acquire (advanced : advance state request .acquire stage = some moved) :
    ∃ incoming key, stage = .queued incoming ∧ incoming.request.key = some key ∧
      state.fill (shardOf lib key) = none ∧
      moved = ⟨state.cache, Function.update state.fill (shardOf lib key) (some request),
        .looking incoming true, []⟩ := by
  cases stage with
  | queued incoming =>
    cases keyed : incoming.request.key with
    | none =>
      simp only [advance, keyed] at advanced
      cases advanced
    | some key =>
      by_cases free : state.fill (shardOf lib key) = none
      · simp only [advance, keyed, if_pos free] at advanced
        exact ⟨incoming, key, rfl, keyed, free, (Option.some.inj advanced).symm⟩
      · simp only [advance, keyed, if_neg free] at advanced
        cases advanced
  | _ => cases advanced

theorem advance_authenticated {response : AuthResponse}
    (advanced : advance state request (.authenticated response) stage = some moved) :
    ∃ incoming, stage = .authenticating incoming ∧
      ((∃ identity setCookie session, authenticate response = .verified identity setCookie ∧
          incoming.session = some session ∧
          moved = state.next (.indexing incoming identity setCookie session)
            [.authenticated (originOf request incoming) identity]) ∨
        ∃ response, response.status ≠ 200 ∧ moved = state.refused request response) := by
  cases stage with
  | authenticating incoming =>
    refine ⟨incoming, rfl, ?_⟩
    cases outcome : authenticate response with
    | anonymous =>
      simp only [advance, outcome] at advanced
      exact Or.inr ⟨Decide.unauthorized, by decide, (Option.some.inj advanced).symm⟩
    | unavailable =>
      simp only [advance, outcome] at advanced
      exact Or.inr ⟨_, Decide.status_refuse _, (Option.some.inj advanced).symm⟩
    | verified identity setCookie =>
      cases known : incoming.session with
      | none =>
        simp only [advance, outcome, known] at advanced
        exact Or.inr ⟨_, Decide.status_refuse _, (Option.some.inj advanced).symm⟩
      | some session =>
        simp only [advance, outcome, known] at advanced
        exact Or.inl ⟨identity, setCookie, session, rfl, rfl, (Option.some.inj advanced).symm⟩
  | _ => cases advanced

theorem advance_indexed {ok : Bool}
    (advanced : advance state request (.indexed ok) stage = some moved) :
    ∃ incoming identity setCookie session, stage = .indexing incoming identity setCookie session ∧
      ((ok = true ∧ moved = state.next (.loading incoming identity setCookie session)
          [.indexed (originOf request incoming) (lib.http.text identity.sub) session]) ∨
        (ok = false ∧ moved = state.refused request (refuse .storeUnavailable))) := by
  cases stage with
  | indexing incoming identity setCookie session =>
    refine ⟨incoming, identity, setCookie, session, rfl, ?_⟩
    cases ok with
    | true => exact Or.inl ⟨rfl, (Option.some.inj advanced).symm⟩
    | false => exact Or.inr ⟨rfl, (Option.some.inj advanced).symm⟩
  | _ => cases advanced

theorem advance_loaded {query : Query}
    (advanced : advance state request (.loaded query) stage = some moved) :
    ∃ incoming identity setCookie session, stage = .loading incoming identity setCookie session ∧
      ((∃ found, query incoming.request.slug (lib.http.text identity.sub)
            (groupsOf lib.http identity) = some found ∧
          moved = state.next (.filling incoming (cachedOf identity found) setCookie session)
            [.loaded (originOf request incoming) found]) ∨
        (query incoming.request.slug (lib.http.text identity.sub)
            (groupsOf lib.http identity) = none ∧
          moved = state.refused request (refuse .storeUnavailable))) := by
  cases stage with
  | loading incoming identity setCookie session =>
    refine ⟨incoming, identity, setCookie, session, rfl, ?_⟩
    cases found : query incoming.request.slug (lib.http.text identity.sub)
        (groupsOf lib.http identity) with
    | none =>
      simp only [advance, found] at advanced
      exact Or.inr ⟨rfl, (Option.some.inj advanced).symm⟩
    | some app =>
      simp only [advance, found] at advanced
      exact Or.inl ⟨app, rfl, (Option.some.inj advanced).symm⟩
  | _ => cases advanced

/-- An insertion always goes through. -/
theorem advance_insert {plan : Plan Key}
    (advanced : advance state request (.insert plan) stage = some moved) :
    ∃ incoming cached setCookie session, stage = .filling incoming cached setCookie session ∧
      ((incoming.request.key = none ∧
          moved = state.next (.answering incoming cached setCookie) []) ∨
        ∃ key cache, incoming.request.key = some key ∧
          Cache.step lib.http lib.pathHash state.cache
            (.insert key (lib.http.text cached.identity.sub) cached plan) = some (cache, []) ∧
          moved = ⟨cache, state.fill, .answering incoming cached setCookie,
            [.inserted (originOf request incoming) state.cache.now]⟩) := by
  cases stage with
  | filling incoming cached setCookie session =>
    refine ⟨incoming, cached, setCookie, session, rfl, ?_⟩
    cases keyed : incoming.request.key with
    | none =>
      simp only [advance, keyed] at advanced
      exact Or.inl ⟨rfl, (Option.some.inj advanced).symm⟩
    | some key =>
      cases stepped : Cache.step lib.http lib.pathHash state.cache
          (.insert key (lib.http.text cached.identity.sub) cached plan) with
      | none =>
        simp only [advance, keyed, stepped] at advanced
        cases advanced
      | some pair =>
        obtain ⟨cache, out⟩ := pair
        obtain ⟨rfl, _⟩ := Cache.step_insert stepped
        simp only [advance, keyed, stepped] at advanced
        exact Or.inr ⟨key, cache, rfl, stepped, (Option.some.inj advanced).symm⟩
  | _ => cases advanced

theorem advance_answer {now seen : DateTime}
    (advanced : advance state request (.answer now seen) stage = some moved) :
    ∃ incoming cached setCookie cache out, stage = .answering incoming cached setCookie ∧
      Cache.step lib.http lib.pathHash state.cache (.answer incoming.request cached now seen) =
        some (cache, out) ∧
      moved = ⟨cache, release state.fill request, .done, out.map .audit ++
        [.answered (originOf request incoming) now
          (Decide.answered (cached.decision incoming.request.uri now) cached.identity
            setCookie)]⟩ := by
  cases stage with
  | answering incoming cached setCookie =>
    cases stepped : Cache.step lib.http lib.pathHash state.cache
        (.answer incoming.request cached now seen) with
    | none =>
      simp only [advance, stepped] at advanced
      cases advanced
    | some pair =>
      obtain ⟨cache, out⟩ := pair
      simp only [advance, stepped] at advanced
      exact ⟨incoming, cached, setCookie, cache, out, rfl, stepped, (Option.some.inj advanced).symm⟩
  | _ => cases advanced

theorem advance_cancel (advanced : advance state request .cancel stage = some moved) :
    moved = ⟨state.cache, release state.fill request, .done, []⟩ := by
  by_cases awaits : stage.awaits = true
  · simp only [advance, if_pos awaits] at advanced
    exact (Option.some.inj advanced).symm
  · simp only [advance, if_neg awaits] at advanced
    cases advanced

end Moves

/-! ### What one step does -/

section Steps

variable {state next : State lib} {out : List Event}

theorem step_arrive {request : Nat} {headers : Headers}
    (stepped : step state (.arrive request headers) = some (next, out)) :
    state.stages request = .idle ∧
      ((∃ response, response.status ≠ 200 ∧ out = [.refused request response] ∧
          next = { state with stages := Function.update state.stages request .done }) ∨
        ∃ incoming stage, gather lib headers = .ok incoming ∧
          out = [.arrived (originOf request incoming)] ∧
          (stage = .looking incoming false ∨
            incoming.request.key = none ∧ stage = .authenticating incoming) ∧
          next = { state with stages := Function.update state.stages request stage }) := by
  cases idle : state.stages request with
  | idle =>
    refine ⟨rfl, ?_⟩
    cases gathered : gather lib headers with
    | error reason =>
      simp only [step, idle, gathered] at stepped
      cases stepped
      exact Or.inl ⟨_, Decide.status_refuse reason, rfl, rfl⟩
    | ok incoming =>
      simp only [step, idle, gathered] at stepped
      cases stepped
      refine Or.inr ⟨incoming, _, rfl, rfl, ?_, rfl⟩
      by_cases keyed : incoming.request.key.isSome = true
      · exact Or.inl (if_pos keyed)
      · exact Or.inr ⟨Option.not_isSome_iff_eq_none.mp keyed, if_neg keyed⟩
  | _ =>
    simp only [step, idle] at stepped
    cases stepped

theorem step_move {request : Nat} {move : Move}
    (stepped : step state (.move request move) = some (next, out)) :
    ∃ moved, advance state request move (state.stages request) = some moved ∧ out = moved.out ∧
      next = ⟨moved.cache, moved.fill, Function.update state.stages request moved.stage⟩ := by
  cases advanced : advance state request move (state.stages request) with
  | none =>
    simp only [step, advanced] at stepped
    cases stepped
  | some moved =>
    simp only [step, advanced] at stepped
    cases stepped
    exact ⟨moved, rfl, rfl, rfl⟩

theorem step_cache {label : Cache.Label}
    (stepped : step state (.cache label) = some (next, out)) :
    ∃ cache seen, label.background = true ∧
      Cache.step lib.http lib.pathHash state.cache label = some (cache, seen) ∧
      out = seen.map .audit ∧ next = { state with cache := cache } := by
  by_cases quiet : label.background = true
  · cases taken : Cache.step lib.http lib.pathHash state.cache label with
    | none =>
      simp only [step, if_pos quiet, taken] at stepped
      cases stepped
    | some pair =>
      simp only [step, if_pos quiet, taken] at stepped
      cases stepped
      exact ⟨_, _, quiet, rfl, rfl, rfl⟩
  · simp only [step, if_neg quiet] at stepped
    cases stepped

/-- **Only the last move of a request answers from data**, with the decision of the data it
holds. -/
theorem answered_of_step {label : Label} (stepped : step state label = some (next, out)) :
    (∀ event ∈ out, ∀ origin now response, event ≠ .answered origin now response) ∨
      ∃ request now incoming cached setCookie audits,
        state.stages request = .answering incoming cached setCookie ∧
          out = List.map Event.audit audits ++ [.answered (originOf request incoming) now
            (Decide.answered (cached.decision incoming.request.uri now) cached.identity
              setCookie)] := by
  cases label with
  | arrive request headers =>
    left
    obtain ⟨_, ⟨response, _, rfl, _⟩ | ⟨incoming, stage, _, rfl, _⟩⟩ := step_arrive stepped
    · simp
    · simp
  | move request move =>
    obtain ⟨moved, advanced, rfl, rfl⟩ := step_move stepped
    cases move with
    | answer now seen =>
      obtain ⟨incoming, cached, setCookie, cache, out, stage, _, rfl⟩ := advance_answer advanced
      exact Or.inr ⟨request, now, incoming, cached, setCookie, out, stage, rfl⟩
    | flag =>
      left
      obtain ⟨incoming, locked, _, ⟨_, rfl⟩ | ⟨_, rfl⟩⟩ := advance_flag advanced
      · simp [State.next]
      · simp [State.next]
    | read =>
      left
      obtain ⟨incoming, locked, _, ⟨key, cached, _, _, rfl⟩ | ⟨_, rfl⟩⟩ := advance_read advanced
      · simp [State.next]
      · simp [State.next]
    | acquire =>
      left
      obtain ⟨incoming, key, _, _, _, rfl⟩ := advance_acquire advanced
      simp
    | authenticated response =>
      left
      obtain ⟨incoming, _, ⟨identity, setCookie, session, _, _, rfl⟩ | ⟨response, _, rfl⟩⟩ :=
        advance_authenticated advanced
      · simp [State.next]
      · simp [State.refused]
    | indexed ok =>
      left
      obtain ⟨incoming, identity, setCookie, session, _, ⟨_, rfl⟩ | ⟨_, rfl⟩⟩ :=
        advance_indexed advanced
      · simp [State.next]
      · simp [State.refused]
    | loaded query =>
      left
      obtain ⟨incoming, identity, setCookie, session, _, ⟨found, _, rfl⟩ | ⟨_, rfl⟩⟩ :=
        advance_loaded advanced
      · simp [State.next]
      · simp [State.refused]
    | insert plan =>
      left
      obtain ⟨incoming, cached, setCookie, session, _, ⟨_, rfl⟩ | ⟨key, cache, _, _, rfl⟩⟩ :=
        advance_insert advanced
      · simp [State.next]
      · simp
    | cancel =>
      left
      obtain rfl := advance_cancel advanced
      simp
  | cache label =>
    left
    obtain ⟨cache, seen, _, _, rfl, _⟩ := step_cache stepped
    intro event member
    obtain ⟨_, _, rfl⟩ := List.mem_map.mp member
    exact fun _ _ _ same => nomatch same

/-- The request a label moves. -/
def Label.moved : Label → Option Nat
  | .arrive request _ => some request
  | .move request _ => some request
  | .cache _ => none

/-- **A step moves no request but its own.** -/
theorem stages_of_step {label : Label} (stepped : step state label = some (next, out)) {other : Nat}
    (apart : label.moved ≠ some other) : next.stages other = state.stages other := by
  cases label with
  | arrive request headers =>
    have different : other ≠ request := fun same => apart (congrArg some same.symm)
    obtain ⟨_, ⟨_, _, _, rfl⟩ | ⟨_, _, _, _, _, rfl⟩⟩ := step_arrive stepped
    · exact Function.update_of_ne different ..
    · exact Function.update_of_ne different ..
  | move request move =>
    have different : other ≠ request := fun same => apart (congrArg some same.symm)
    obtain ⟨_, _, _, rfl⟩ := step_move stepped
    exact Function.update_of_ne different ..
  | cache label =>
    obtain ⟨_, _, _, _, _, rfl⟩ := step_cache stepped
    rfl

end Steps

end OpenBerat.Instance
