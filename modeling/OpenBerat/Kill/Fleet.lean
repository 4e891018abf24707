/-
**The fleet: instances, one Redis, one kill.**

Any number of instances serve requests over their own caches. Redis keeps the session index and
delivers an invalidation to every connection subscribed at that moment, in order, and to no later
one. Each instance runs one subscriber, and one kill of one sub runs somewhere in the fleet. The
subscriber and the kill take their snapshots of a cache as walks of their own, and anything else may
happen between two evictions.

* `step_request`, `step_record`, `step_link`, `step_kill`: what one step can do; `stages_of_step`:
  what it leaves alone.
-/

import OpenBerat.Instance
import OpenBerat.Kill.Index

namespace OpenBerat.Fleet

open Index (Fate)
open Lib (Plan)

/-! ### Subscribers, the kill, the fleet -/

/-- A message on the invalidation channel: the kill's own, or one of somebody else's. -/
inductive Message
  | kill
  | other (sub : Str)

/-- Where a subscriber stands. -/
inductive LinkStage
  /-- Between two connections. -/
  | down
  /-- Redis has executed the `SUBSCRIBE`. -/
  | opened
  /-- The flag was down: `flush_all` takes its snapshot next. -/
  | clearing
  | flushing
  | raising
  | listening
  | dropping (message : Message)
  /-- Out of the loop: the flag goes down next. -/
  | lowering

/-- The subscriber of an instance, and its connection. -/
structure Link where
  stage : LinkStage
  /-- Redis delivers to the connection. -/
  registered : Bool
  /-- Delivered and not read yet. -/
  pending : List Message

/-- Where the kill stands: what it does next. -/
inductive KillStage
  | logoutAll
  | sessions
  | dropSessions (sessions : List Str)
  | publishInvalidation
  | dropSub (published : Bool)
  /-- `drop_sub` evicts. -/
  | dropping (published : Bool)
  | forget
  | returned (ok : Bool)
  deriving DecidableEq

/-- The instances with their subscribers, the session index, and the one kill. -/
structure State (lib : Libraries) where
  instances : Nat → Instance.State lib
  links : Nat → Link
  /-- The members of each sub's index entry. -/
  index : Str → List Str
  /-- The session keys the kill has deleted. -/
  deleted : List Str
  kill : KillStage

/-- The fleet as it starts, with the kill before its first command. -/
def State.init (lib : Libraries) : State lib :=
  ⟨fun _ => .init lib, fun _ => ⟨.down, false, []⟩, fun _ => [], [], .logoutAll⟩

/-- What a run shows. -/
inductive Event
  | of (node : Nat) (event : Instance.Event)
  | subscribed (node : Nat)
  /-- The subscriber has dropped the sub of the kill's message. -/
  | processed (node : Nat)
  | deleted (sessions : List Str)
  | published
  | killed (sessions : Nat)
  deriving DecidableEq

/-- The next command of a subscriber, or what becomes of its connection. -/
inductive LinkMove
  | subscribe
  | load
  | flush (plan : Plan Key)
  | swap
  | message (plan : Plan Key)
  | handled
  | fail
  | lower
  /-- Redis gives the connection up. -/
  | cut

/-- What can happen in the fleet. -/
inductive Label
  | request (node : Nat) (label : Instance.Label)
  /-- Redis's answer to the index write of a request. -/
  | record (node request : Nat) (fate : Fate)
  | link (node : Nat) (move : LinkMove)
  /-- Somebody else's invalidation. -/
  | publish (sub : Str)
  | kill (fate : Fate) (plan : Plan Key)

/-- The walks of the subscriber and of the kill; the others are anybody's. -/
def subscriberJob : Nat := 0
/-- The walk of the kill. -/
def killJob : Nat := 1

section Machine

variable {lib : Libraries}

/-- An instance has moved on. -/
def State.serve (state : State lib) (node : Nat) (next : Instance.State lib) : State lib :=
  { state with instances := Function.update state.instances node next }

/-- The cache of an instance has. -/
def State.onCache (state : State lib) (node : Nat) (cache : Cache.State) : State lib :=
  state.serve node { state.instances node with cache := cache }

/-- The subscriber of an instance has. -/
def State.relink (state : State lib) (node : Nat) (link : Link) : State lib :=
  { state with links := Function.update state.links node link }

/-- A message for every connection that is subscribed. -/
def State.broadcast (state : State lib) (message : Message) : State lib :=
  { state with links := fun node =>
      let link := state.links node
      if link.registered then { link with pending := link.pending ++ [message] } else link }

/-- The steps of an instance that are left to itself: the index write needs Redis, the flag is the
subscriber's, and so is the walk of its job, as another one is the kill's. -/
def free : Instance.Label → Bool
  | .move _ (.indexed _) => false
  | .cache (.swap _) => false
  | .cache (.walk job _ _) => killJob < job
  | _ => true

/-- A walk over the cache of an instance begins. -/
def State.walk (state : State lib) (node job : Nat) (scope : Cache.Scope) (plan : Plan Key) :
    Option (State lib) :=
  (Cache.step lib.http lib.pathHash (state.instances node).cache (.walk job scope plan)).map
    fun (cache, _) => state.onCache node cache

/-- The snapshot of a walk. -/
def walking (cache : Cache.State) (job : Nat) (scope : Cache.Scope) (plan : Plan Key) :
    Cache.State :=
  { cache with
    jobs := Function.update cache.jobs job (Cache.snapshot plan cache.now cache.inner scope) }

/-- `cache.subscribed.swap(live)`. -/
def flagged (cache : Cache.State) (live : Bool) : Cache.State :=
  { cache with subscribed := live }

/-- The flag of an instance is stored. -/
def State.flag (state : State lib) (node : Nat) (live : Bool) : State lib :=
  state.onCache node (flagged (state.instances node).cache live)

/-- The walk of a job is over. -/
def State.idle (state : State lib) (node job : Nat) : Prop :=
  (state.instances node).cache.jobs job = []

instance (state : State lib) (node job : Nat) : Decidable (state.idle node job) :=
  inferInstanceAs (Decidable (_ = _))

/-- `SADD`. -/
def State.recorded (state : State lib) (sub session : Str) : State lib :=
  { state with index := Function.update state.index sub ((state.index sub).insert session) }

variable (target : Str) (killer : Nat)

/-- The sub that a message names. -/
def Message.sub : Message → Str
  | .kill => target
  | .other sub => sub

/-- One move of a subscriber. -/
def advanceLink (state : State lib) (node : Nat) : LinkMove → LinkStage →
    Option (State lib × List Event)
  | .subscribe, .down => some (state.relink node ⟨.opened, true, []⟩, [.subscribed node])
  | .load, .opened =>
    if (state.instances node).cache.subscribed then
      some (state.relink node { state.links node with stage := .raising }, [])
    else some (state.relink node { state.links node with stage := .clearing }, [])
  | .flush plan, .clearing =>
    (state.walk node subscriberJob .all plan).map fun next =>
      (next.relink node { state.links node with stage := .flushing }, [])
  | .swap, .flushing =>
    if state.idle node subscriberJob then
      some ((state.flag node true).relink node { state.links node with stage := .listening }, [])
    else none
  | .swap, .raising =>
    some ((state.flag node true).relink node { state.links node with stage := .listening }, [])
  | .message plan, .listening =>
    match (state.links node).pending with
    | [] => none
    | message :: pending =>
      (state.walk node subscriberJob (.ofSub (message.sub target)) plan).map fun next =>
        (next.relink node { state.links node with stage := .dropping message, pending := pending },
          [])
  | .handled, .dropping message =>
    if state.idle node subscriberJob then
      some (state.relink node { state.links node with stage := .listening },
        match message with
        | .kill => [.processed node]
        | .other _ => [])
    else none
  | .fail, .opened => some (state.relink node ⟨.lowering, false, []⟩, [])
  | .fail, .listening => some (state.relink node ⟨.lowering, false, []⟩, [])
  | .lower, .lowering =>
    some ((state.flag node false).relink node { state.links node with stage := .down }, [])
  | .cut, _ => some (state.relink node { state.links node with registered := false }, [])
  | _, _ => none

/-- The next command of the kill. -/
def advanceKill (state : State lib) (fate : Fate) (plan : Plan Key) :
    KillStage → Option (State lib × List Event)
  | .logoutAll => some ({ state with kill := if fate.ok then .sessions else .returned false }, [])
  | .sessions =>
    if fate.ok then some ({ state with kill := .dropSessions (state.index target) }, [])
    else some ({ state with kill := .returned false }, [])
  | .dropSessions [] => some ({ state with kill := .publishInvalidation }, [])
  | .dropSessions (session :: sessions) =>
    let next := if fate.ok then .publishInvalidation else .returned false
    if fate.executed then
      some ({ state with deleted := state.deleted ++ session :: sessions, kill := next },
        [.deleted (session :: sessions)])
    else some ({ state with kill := next }, [])
  | .publishInvalidation =>
    if fate.executed then
      some ({ state.broadcast .kill with kill := .dropSub fate.ok }, [.published])
    else some ({ state with kill := .dropSub false }, [])
  | .dropSub published =>
    (state.walk killer killJob (.ofSub target) plan).map fun next =>
      ({ next with kill := .dropping published }, [])
  | .dropping published =>
    if state.idle killer killJob then
      some ({ state with kill := if published then .forget else .returned false }, [])
    else none
  | .forget =>
    let index := if fate.executed then Function.update state.index target [] else state.index
    some ({ state with index := index, kill := .returned fate.ok },
      if fate.ok then [.killed state.deleted.length] else [])
  | .returned _ => none

/-- One step of the fleet, and what it shows. -/
def step (state : State lib) : Label → Option (State lib × List Event)
  | .request node label =>
    if free label then
      (Instance.step (state.instances node) label).map fun (next, out) =>
        (state.serve node next, out.map (.of node))
    else none
  | .record node request fate =>
    match (state.instances node).stages request with
    | .indexing _ identity _ session =>
      let written := if fate.executed then state.recorded (lib.http.text identity.sub) session
        else state
      (Instance.step (state.instances node) (.move request (.indexed fate.ok))).map
        fun (next, out) =>
        (written.serve node next, out.map (.of node))
    | _ => none
  | .link node move => advanceLink target state node move (state.links node).stage
  | .publish sub => some (state.broadcast (.other sub), [])
  | .kill fate plan => advanceKill target killer state fate plan state.kill

/-! ### What one step does -/

variable {target killer} {state next : State lib} {out : List Event}

theorem walk_eq_some {node job : Nat} {scope : Cache.Scope} {plan : Plan Key} :
    state.walk node job scope plan = some next ↔ state.idle node job ∧
      next = state.onCache node (walking (state.instances node).cache job scope plan) := by
  unfold State.walk
  rw [Option.map_eq_some_iff]
  constructor
  · rintro ⟨⟨cache, seen⟩, stepped, rfl⟩
    obtain ⟨_, idle, rfl⟩ := Cache.step_walk stepped
    exact ⟨idle, rfl⟩
  · rintro ⟨idle, rfl⟩
    refine ⟨(_, []), ?_, rfl⟩
    unfold Cache.step
    exact if_pos idle

theorem onCache_self (state : State lib) (node : Nat) :
    state.onCache node (state.instances node).cache = state := by
  unfold State.onCache State.serve
  rw [Function.update_eq_self]

theorem step_request {node : Nat} {label : Instance.Label}
    (stepped : step target killer state (.request node label) = some (next, out)) :
    free label = true ∧ ∃ instance' events,
      Instance.step (state.instances node) label = some (instance', events) ∧
      next = state.serve node instance' ∧ out = events.map (.of node) := by
  unfold step at stepped
  by_cases alone : free label = true
  · dsimp only at stepped
    rw [if_pos alone, Option.map_eq_some_iff] at stepped
    obtain ⟨⟨instance', events⟩, moved, same⟩ := stepped
    cases same
    exact ⟨alone, instance', events, moved, rfl, rfl⟩
  · dsimp only at stepped
    rw [if_neg alone] at stepped
    cases stepped

theorem step_record {node request : Nat} {fate : Fate}
    (stepped : step target killer state (.record node request fate) = some (next, out)) :
    ∃ incoming identity setCookie session instance' events,
      (state.instances node).stages request = .indexing incoming identity setCookie session ∧
      Instance.step (state.instances node) (.move request (.indexed fate.ok)) =
        some (instance', events) ∧
      next = (if fate.executed then state.recorded (lib.http.text identity.sub) session
        else state).serve node instance' ∧
      out = events.map (.of node) := by
  unfold step at stepped
  dsimp only at stepped
  split at stepped
  · rename_i incoming identity setCookie session stage
    obtain ⟨⟨instance', events⟩, moved, same⟩ := Option.map_eq_some_iff.mp stepped
    cases same
    exact ⟨incoming, identity, setCookie, session, instance', events, stage, moved, rfl, rfl⟩
  · cases stepped

/-- What a move of a subscriber does to its cache and its link. -/
inductive LinkMoved (target : Str) (node : Nat) (cache : Cache.State) (link : Link) :
    Cache.State → Link → List Event → Prop
  | subscribe : link.stage = .down →
      LinkMoved target node cache link cache ⟨.opened, true, []⟩ [.subscribed node]
  | raise : link.stage = .opened → cache.subscribed = true →
      LinkMoved target node cache link cache { link with stage := .raising } []
  | clear : link.stage = .opened → cache.subscribed = false →
      LinkMoved target node cache link cache { link with stage := .clearing } []
  | flush {plan : Plan Key} : link.stage = .clearing →
      LinkMoved target node cache link (walking cache subscriberJob .all plan)
        { link with stage := .flushing } []
  | swap : link.stage = .flushing ∧ cache.jobs subscriberJob = [] ∨ link.stage = .raising →
      LinkMoved target node cache link (flagged cache true) { link with stage := .listening } []
  | message {plan : Plan Key} {message : Message} {pending : List Message} :
      link.stage = .listening → link.pending = message :: pending →
      LinkMoved target node cache link
        (walking cache subscriberJob (.ofSub (message.sub target)) plan)
        { link with stage := .dropping message, pending := pending } []
  | handled {sub : Str} : link.stage = .dropping (.other sub) →
      LinkMoved target node cache link cache { link with stage := .listening } []
  | processed : link.stage = .dropping .kill → cache.jobs subscriberJob = [] →
      LinkMoved target node cache link cache { link with stage := .listening } [.processed node]
  | fail : link.stage = .opened ∨ link.stage = .listening →
      LinkMoved target node cache link cache ⟨.lowering, false, []⟩ []
  | lower : link.stage = .lowering →
      LinkMoved target node cache link (flagged cache false) { link with stage := .down } []
  | cut : LinkMoved target node cache link cache { link with registered := false } []

/-- **One move of a subscriber.** -/
theorem step_link {node : Nat} {move : LinkMove}
    (stepped : step target killer state (.link node move) = some (next, out)) :
    ∃ cache link, LinkMoved target node (state.instances node).cache (state.links node) cache link
        out ∧ next = (state.onCache node cache).relink node link := by
  have moved : advanceLink target state node move (state.links node).stage = some (next, out) :=
    stepped
  have still : ∀ link, LinkMoved target node (state.instances node).cache (state.links node)
      (state.instances node).cache link out → next = state.relink node link →
      ∃ cache link, LinkMoved target node (state.instances node).cache (state.links node) cache link
        out ∧ next = (state.onCache node cache).relink node link := by
    intro link kept same
    exact ⟨_, link, kept, by rw [onCache_self, same]⟩
  cases move with
  | subscribe =>
    cases stage : (state.links node).stage with
    | down =>
      rw [stage] at moved
      cases moved
      exact still _ (.subscribe stage) rfl
    | _ =>
      rw [stage] at moved
      cases moved
  | load =>
    cases stage : (state.links node).stage with
    | opened =>
      rw [stage] at moved
      unfold advanceLink at moved
      by_cases live : (state.instances node).cache.subscribed = true
      · rw [if_pos live] at moved
        cases moved
        exact still _ (.raise stage live) rfl
      · rw [if_neg live] at moved
        cases moved
        exact still _ (.clear stage (Bool.eq_false_iff.mpr live)) rfl
    | _ =>
      rw [stage] at moved
      cases moved
  | flush plan =>
    cases stage : (state.links node).stage with
    | clearing =>
      rw [stage] at moved
      obtain ⟨walked, begun, same⟩ := Option.map_eq_some_iff.mp moved
      obtain ⟨_, rfl⟩ := walk_eq_some.mp begun
      cases same
      exact ⟨_, _, .flush stage, rfl⟩
    | _ =>
      rw [stage] at moved
      cases moved
  | swap =>
    cases stage : (state.links node).stage with
    | flushing =>
      rw [stage] at moved
      unfold advanceLink at moved
      by_cases idle : state.idle node subscriberJob
      · rw [if_pos idle] at moved
        cases moved
        exact ⟨_, _, .swap (Or.inl ⟨stage, idle⟩), rfl⟩
      · rw [if_neg idle] at moved
        cases moved
    | raising =>
      rw [stage] at moved
      cases moved
      exact ⟨_, _, .swap (Or.inr stage), rfl⟩
    | _ =>
      rw [stage] at moved
      cases moved
  | message plan =>
    cases stage : (state.links node).stage with
    | listening =>
      rw [stage] at moved
      unfold advanceLink at moved
      dsimp only at moved
      cases waiting : (state.links node).pending with
      | nil =>
        rw [waiting] at moved
        cases moved
      | cons message pending =>
        rw [waiting] at moved
        obtain ⟨walked, begun, same⟩ := Option.map_eq_some_iff.mp moved
        obtain ⟨_, rfl⟩ := walk_eq_some.mp begun
        cases same
        exact ⟨_, _, .message stage waiting, rfl⟩
    | _ =>
      rw [stage] at moved
      cases moved
  | handled =>
    cases stage : (state.links node).stage with
    | dropping message =>
      rw [stage] at moved
      unfold advanceLink at moved
      by_cases idle : state.idle node subscriberJob
      · dsimp only at moved
        rw [if_pos idle] at moved
        cases message with
        | kill =>
          cases moved
          exact still _ (.processed stage idle) rfl
        | other sub =>
          cases moved
          exact still _ (.handled stage) rfl
      · dsimp only at moved
        rw [if_neg idle] at moved
        cases moved
    | _ =>
      rw [stage] at moved
      cases moved
  | fail =>
    cases stage : (state.links node).stage with
    | opened =>
      rw [stage] at moved
      cases moved
      exact still _ (.fail (Or.inl stage)) rfl
    | listening =>
      rw [stage] at moved
      cases moved
      exact still _ (.fail (Or.inr stage)) rfl
    | _ =>
      rw [stage] at moved
      cases moved
  | lower =>
    cases stage : (state.links node).stage with
    | lowering =>
      rw [stage] at moved
      cases moved
      exact ⟨_, _, .lower stage, rfl⟩
    | _ =>
      rw [stage] at moved
      cases moved
  | cut =>
    have same : some (state.relink node { state.links node with registered := false }, []) =
        some (next, out) := by
      rw [← moved]
      cases (state.links node).stage <;> rfl
    cases same
    exact still _ .cut rfl

/-- The kill has not published yet. -/
def KillStage.early : KillStage → Prop
  | .logoutAll => True
  | .sessions => True
  | .dropSessions _ => True
  | .publishInvalidation => True
  | _ => False

/-- What a command of the kill does to the fleet. -/
structure KillMoved (target : Str) (killer : Nat) (state next : State lib) (out : List Event) :
    Prop where
  instances : next.instances = state.instances ∨ ∃ plan, next.instances =
    (state.onCache killer
        (walking (state.instances killer).cache killJob (.ofSub target) plan)).instances
  links : next.links = state.links ∨
    next.links = (state.broadcast .kill).links ∧ ¬ next.kill.early
  index : ∀ sub, ∀ session ∈ next.index sub, session ∈ state.index sub
  deleted : ∀ session ∈ state.deleted, session ∈ next.deleted
  listed : ∀ sessions, next.kill = .dropSessions sessions → sessions = state.index target
  early : next.kill.early → state.kill.early
  silent : ∀ event ∈ out, (∃ sessions, event = .deleted sessions) ∨ event = .published ∨
    ∃ sessions, event = .killed sessions

theorem KillMoved.onward {stage : KillStage}
    (listed : ∀ sessions, stage = .dropSessions sessions → sessions = state.index target)
    (early : stage.early → state.kill.early) :
    KillMoved target killer state { state with kill := stage } [] :=
  ⟨Or.inl rfl, Or.inl rfl, fun _ _ member => member, fun _ member => member, listed, early,
    fun _ member => nomatch member⟩

/-- **One command of the kill.** -/
theorem step_kill {fate : Fate} {plan : Plan Key}
    (stepped : step target killer state (.kill fate plan) = some (next, out)) :
    KillMoved target killer state next out := by
  have moved : advanceKill target killer state fate plan state.kill = some (next, out) := stepped
  cases stage : state.kill with
  | logoutAll =>
    rw [stage] at moved
    cases moved
    refine .onward ?_ fun _ => by rw [stage]; trivial
    cases fate <;> exact fun _ same => nomatch same
  | sessions =>
    rw [stage] at moved
    unfold advanceKill at moved
    dsimp only at moved
    by_cases read : fate.ok = true
    · rw [if_pos read] at moved
      cases moved
      exact .onward (fun _ same => (KillStage.dropSessions.inj same).symm) fun _ => by
        rw [stage]
        trivial
    · rw [if_neg read] at moved
      cases moved
      exact .onward (fun _ same => (nomatch same)) False.elim
  | dropSessions sessions =>
    rw [stage] at moved
    cases sessions with
    | nil =>
      cases moved
      exact .onward (fun _ same => nomatch same) fun _ => by
        rw [stage]
        trivial
    | cons session sessions =>
      unfold advanceKill at moved
      dsimp only at moved
      have known : state.kill.early := by
        rw [stage]
        trivial
      have listed : ∀ sessions, (if fate.ok = true then KillStage.publishInvalidation
          else .returned false) = .dropSessions sessions → sessions = state.index target := by
        intro sessions same
        cases fate <;> cases same
      by_cases executed : fate.executed = true
      · rw [if_pos executed] at moved
        cases moved
        refine ⟨Or.inl rfl, Or.inl rfl, fun _ _ member => member,
          fun _ member => List.mem_append_left _ member, listed, fun _ => known, ?_⟩
        exact List.forall_mem_singleton.mpr (Or.inl ⟨_, rfl⟩)
      · rw [if_neg executed] at moved
        cases moved
        exact .onward listed fun _ => known
  | publishInvalidation =>
    rw [stage] at moved
    unfold advanceKill at moved
    by_cases executed : fate.executed = true
    · rw [if_pos executed] at moved
      cases moved
      exact ⟨Or.inl rfl, Or.inr ⟨rfl, id⟩, fun _ _ member => member, fun _ member => member,
        fun _ same => (nomatch same), False.elim,
        List.forall_mem_singleton.mpr (Or.inr (Or.inl rfl))⟩
    · rw [if_neg executed] at moved
      cases moved
      exact .onward (fun _ same => (nomatch same)) False.elim
  | dropSub published =>
    rw [stage] at moved
    obtain ⟨walked, begun, same⟩ := Option.map_eq_some_iff.mp moved
    obtain ⟨_, rfl⟩ := walk_eq_some.mp begun
    cases same
    exact ⟨Or.inr ⟨plan, rfl⟩, Or.inl rfl, fun _ _ member => member, fun _ member => member,
      fun _ same => (nomatch same), False.elim, fun _ member => nomatch member⟩
  | dropping published =>
    rw [stage] at moved
    unfold advanceKill at moved
    dsimp only at moved
    by_cases idle : state.idle killer killJob
    · rw [if_pos idle] at moved
      cases moved
      refine .onward ?_ ?_
      · cases published <;> exact fun _ same => nomatch same
      · cases published <;> exact False.elim
    · rw [if_neg idle] at moved
      cases moved
  | forget =>
    rw [stage] at moved
    cases moved
    refine ⟨Or.inl rfl, Or.inl rfl, fun sub session member => ?_, fun _ member => member,
      fun _ same => (nomatch same), False.elim, ?_⟩
    · cases fate with
      | failed => exact member
      | _ =>
        have kept : session ∈ Function.update state.index target [] sub := member
        by_cases mine : sub = target
        · rw [mine, Function.update_self] at kept
          cases kept
        · rwa [Function.update_of_ne mine] at kept
    · cases fate with
      | answered => exact List.forall_mem_singleton.mpr (Or.inr (Or.inr ⟨_, rfl⟩))
      | _ => exact fun _ member => nomatch member
  | returned ok =>
    rw [stage] at moved
    cases moved

/-! ### What one step leaves alone -/

/-- The request a label moves, with the instance it is on. -/
def Label.moved : Label → Option (Nat × Nat)
  | .request node label => label.moved.map fun moved => (node, moved)
  | .record node written _ => some (node, written)
  | _ => none

/-- Another instance at a node leaves the requests of the others alone. -/
theorem stages_serve {served node request : Nat} {instance' : Instance.State lib}
    (same : node = served →
      instance'.stages request = (state.instances served).stages request) :
    ((state.serve served instance').instances node).stages request =
      (state.instances node).stages request := by
  show (Function.update state.instances served instance' node).stages request = _
  by_cases here : node = served
  · rw [here, Function.update_self]
    exact same here
  · rw [Function.update_of_ne here]

/-- **A step moves no request but its own.** -/
theorem stages_of_step {label : Label}
    (stepped : step target killer state label = some (next, out)) {node request : Nat}
    (apart : label.moved ≠ some (node, request)) :
    (next.instances node).stages request = (state.instances node).stages request := by
  cases label with
  | request served label =>
    obtain ⟨_, instance', _, moved, rfl, _⟩ := step_request stepped
    refine stages_serve fun here => Instance.stages_of_step moved fun own => apart ?_
    show label.moved.map (fun request => (served, request)) = _
    rw [own, here]
    rfl
  | record served written fate =>
    obtain ⟨incoming, identity, setCookie, session, instance', _, _, moved, rfl, _⟩ :=
      step_record stepped
    have still : ∀ state' : State lib, state'.instances = state.instances →
        ((state'.serve served instance').instances node).stages request =
          (state.instances node).stages request := by
      intro state' same
      rw [← same]
      refine stages_serve fun here => ?_
      rw [same]
      refine Instance.stages_of_step moved fun own => apart ?_
      obtain rfl : written = request := Option.some.inj own
      rw [here]
      rfl
    split
    · exact still _ rfl
    · exact still _ rfl
  | link served move =>
    obtain ⟨cache, link, _, rfl⟩ := step_link stepped
    exact stages_serve fun _ => rfl
  | publish sub =>
    cases stepped
    rfl
  | kill fate plan =>
    rcases (step_kill stepped).instances with same | ⟨_, same⟩
    · rw [same]
    · rw [same]
      exact stages_serve fun _ => rfl

end Machine

end OpenBerat.Fleet
