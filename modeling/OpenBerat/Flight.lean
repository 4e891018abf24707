/-
**Single flight.**

A request that fills the cache holds the lock of its key's shard from before its second lookup until
it ends, so a fill finds no live entry of its key: not at the lookup, and not later, since only it
could have made one.

* `Locked`: who holds which lock, in every reachable state.
* `beyond_of_step`: the only way past the lookup under the lock is to find nothing there.
* `single_flight`: two fills of a key have an entry that has left or expired in between.
-/

import OpenBerat.Provenance

namespace OpenBerat.Instance

open Decide (Incoming)
open Lib (Plan Run exec guarded)

section Flight

variable {lib : Libraries}

/-! ### Stages -/

/-- The key whose lock is held. -/
def Stage.holding : Stage lib → Option Key
  | .looking incoming true => incoming.request.key
  | .reading incoming true => incoming.request.key
  | .authenticating incoming => incoming.request.key
  | .indexing incoming _ _ _ => incoming.request.key
  | .loading incoming _ _ _ => incoming.request.key
  | .filling incoming _ _ _ => incoming.request.key
  | _ => none

/-- The key that has been looked up under its lock without being found. -/
def Stage.beyond : Stage lib → Option Key
  | .authenticating incoming => incoming.request.key
  | .indexing incoming _ _ _ => incoming.request.key
  | .loading incoming _ _ _ => incoming.request.key
  | .filling incoming _ _ _ => incoming.request.key
  | _ => none

/-- The key that is filled next. -/
def Stage.fills : Stage lib → Option Key
  | .filling incoming _ _ _ => incoming.request.key
  | _ => none

section Stages

variable {stage : Stage lib} {key : Key}

theorem beyond_of_fills (fills : stage.fills = some key) : stage.beyond = some key := by
  cases stage with
  | filling incoming cached setCookie session => exact fills
  | _ => cases fills

theorem holding_of_beyond (beyond : stage.beyond = some key) : stage.holding = some key := by
  cases stage with
  | authenticating incoming => exact beyond
  | indexing incoming identity setCookie session => exact beyond
  | loading incoming identity setCookie session => exact beyond
  | filling incoming cached setCookie session => exact beyond
  | _ => cases beyond

/-- Behind a lookup without the lock nothing is held. -/
theorem missed_holding {incoming : Incoming lib} {locked : Bool}
    (holding : (missed incoming locked).holding = some key) :
    locked = true ∧ incoming.request.key = some key := by
  cases locked with
  | false => cases holding
  | true => exact ⟨rfl, holding⟩

theorem missed_beyond {incoming : Incoming lib} {locked : Bool}
    (beyond : (missed incoming locked).beyond = some key) :
    locked = true ∧ incoming.request.key = some key :=
  missed_holding (holding_of_beyond beyond)

end Stages

/-! ### The locks -/

section Locks

variable {state next : State lib} {stage : Stage lib} {key : Key} {label : Label} {out : List Event}
  {request : Nat} {moved : Moved lib}

/-- Every lock a request needs is its own. -/
def Locked (state : State lib) : Prop :=
  ∀ request key, (state.stages request).holding = some key →
    state.fill (shardOf lib key) = some request

theorem release_of_ne {fill : Nat → Option Nat} {shard other : Nat} (held : fill shard = some other)
    (different : other ≠ request) : release fill request shard = some other := by
  unfold release
  rw [if_neg]
  · exact held
  · intro same
    exact different (Option.some.inj (held.symm.trans same))

/-- **What a move does to the locks**: those of the others stay, and what the request holds
afterwards it has held before or has just acquired. -/
theorem advance_fill {move : Move} (advanced : advance state request move stage = some moved) :
    (∀ shard other, state.fill shard = some other → other ≠ request →
      moved.fill shard = some other) ∧
    ∀ key, moved.stage.holding = some key →
      (stage.holding = some key ∧ moved.fill = state.fill) ∨
        moved.fill (shardOf lib key) = some request := by
  cases move with
  | flag =>
    obtain ⟨incoming, locked, rfl, ⟨_, rfl⟩ | ⟨_, rfl⟩⟩ := advance_flag advanced
    · refine ⟨fun _ _ held _ => held, fun key holding => Or.inl ⟨?_, rfl⟩⟩
      cases locked with
      | false => cases holding
      | true => exact holding
    · refine ⟨fun _ _ held _ => held, fun key holding => Or.inl ⟨?_, rfl⟩⟩
      obtain ⟨rfl, keyed⟩ := missed_holding holding
      exact keyed
  | read =>
    obtain ⟨incoming, locked, rfl, ⟨_, _, _, _, rfl⟩ | ⟨_, rfl⟩⟩ := advance_read advanced
    · exact ⟨fun _ _ held _ => held, fun key holding => nomatch holding⟩
    · refine ⟨fun _ _ held _ => held, fun key holding => Or.inl ⟨?_, rfl⟩⟩
      obtain ⟨rfl, keyed⟩ := missed_holding holding
      exact keyed
  | acquire =>
    obtain ⟨incoming, mine, rfl, keyed, free, rfl⟩ := advance_acquire advanced
    refine ⟨fun shard other held _ => ?_, fun key holding => Or.inr ?_⟩
    · have apart : shard ≠ shardOf lib mine := by
        rintro rfl
        rw [free] at held
        cases held
      exact (Function.update_of_ne apart _ _).trans held
    · obtain rfl := Option.some.inj (keyed.symm.trans holding)
      exact Function.update_self ..
  | authenticated response =>
    obtain ⟨incoming, rfl, ⟨_, _, _, _, _, rfl⟩ | ⟨_, _, rfl⟩⟩ := advance_authenticated advanced
    · exact ⟨fun _ _ held _ => held, fun key holding => Or.inl ⟨holding, rfl⟩⟩
    · exact ⟨fun _ _ held different => release_of_ne held different,
        fun key holding => nomatch holding⟩
  | indexed ok =>
    obtain ⟨incoming, _, _, _, rfl, ⟨_, rfl⟩ | ⟨_, rfl⟩⟩ := advance_indexed advanced
    · exact ⟨fun _ _ held _ => held, fun key holding => Or.inl ⟨holding, rfl⟩⟩
    · exact ⟨fun _ _ held different => release_of_ne held different,
        fun key holding => nomatch holding⟩
  | loaded query =>
    obtain ⟨incoming, _, _, _, rfl, ⟨_, _, rfl⟩ | ⟨_, rfl⟩⟩ := advance_loaded advanced
    · exact ⟨fun _ _ held _ => held, fun key holding => Or.inl ⟨holding, rfl⟩⟩
    · exact ⟨fun _ _ held different => release_of_ne held different,
        fun key holding => nomatch holding⟩
  | insert plan =>
    obtain ⟨incoming, _, _, _, rfl, ⟨_, rfl⟩ | ⟨_, _, _, _, rfl⟩⟩ := advance_insert advanced
    · exact ⟨fun _ _ held _ => held, fun key holding => nomatch holding⟩
    · exact ⟨fun _ _ held _ => held, fun key holding => nomatch holding⟩
  | answer now seen =>
    obtain ⟨_, _, _, _, _, rfl, _, rfl⟩ := advance_answer advanced
    exact ⟨fun _ _ held different => release_of_ne held different,
      fun key holding => nomatch holding⟩
  | cancel =>
    obtain rfl := advance_cancel advanced
    exact ⟨fun _ _ held different => release_of_ne held different,
      fun key holding => nomatch holding⟩

/-- **The locks through a step.** -/
theorem locked_of_step (locked : Locked state) (stepped : step state label = some (next, out)) :
    Locked next := by
  intro other key holding
  cases label with
  | arrive request headers =>
    have fresh : ∀ stage : Stage lib, stage.holding = none →
        (Function.update state.stages request stage other).holding = some key →
        state.fill (shardOf lib key) = some other := by
      intro stage free holding
      by_cases same : other = request
      · subst same
        rw [Function.update_self, free] at holding
        cases holding
      · rw [Function.update_of_ne same] at holding
        exact locked other key holding
    obtain ⟨_, ⟨_, _, _, rfl⟩ | ⟨incoming, _, _, _, rfl | ⟨keyless, rfl⟩, rfl⟩⟩ :=
      step_arrive stepped
    · exact fresh _ rfl holding
    · exact fresh _ rfl holding
    · exact fresh (.authenticating incoming) keyless holding
  | move request move =>
    obtain ⟨moved, advanced, _, rfl⟩ := step_move stepped
    obtain ⟨others, mine⟩ := advance_fill advanced
    have holding : (Function.update state.stages request moved.stage other).holding = some key :=
      holding
    by_cases same : other = request
    · subst same
      rw [Function.update_self] at holding
      rcases mine key holding with ⟨already, kept⟩ | acquired
      · show moved.fill _ = _
        rw [kept]
        exact locked other key already
      · exact acquired
    · rw [Function.update_of_ne same] at holding
      exact others _ _ (locked other key holding) same
  | cache label =>
    obtain ⟨_, _, _, _, _, rfl⟩ := step_cache stepped
    exact locked other key holding

theorem locked_of_run {allowed : State lib → Label → Prop} {trace : List Event}
    (run : Run step allowed (.init lib) trace state) : Locked state := by
  refine @Run.invariant _ _ _ _ _ _ (fun _ state => Locked state) ?_
    (fun _ _ _ _ _ locked _ stepped => locked_of_step locked stepped) _ _ run
  intro request key holding
  cases holding

/-- **One request at a time** is behind the lookup of a key. -/
theorem Locked.unique (locked : Locked state) {first second : Nat}
    (one : (state.stages first).beyond = some key)
    (other : (state.stages second).beyond = some key) :
    first = second := by
  have mine := locked first key (holding_of_beyond one)
  exact Option.some.inj (mine.symm.trans (locked second key (holding_of_beyond other)))

end Locks

/-! ### The lookup under the lock -/

section Lookup

variable {state next : State lib} {stage : Stage lib} {key : Key} {label : Label} {out : List Event}
  {request : Nat} {moved : Moved lib}

/-- The two ways past the lookup under the lock. -/
inductive Passes (state : State lib) (request : Nat) (key : Key) : Label → Prop
  | absent {incoming : Incoming lib} (reading : state.stages request = .reading incoming true)
      (keyed : incoming.request.key = some key)
      (nothing : Cache.lookup state.cache.now state.cache.inner key = none) :
      Passes state request key (.move request .read)
  | unsubscribed {incoming : Incoming lib} (looking : state.stages request = .looking incoming true)
      (keyed : incoming.request.key = some key) (down : state.cache.subscribed = false) :
      Passes state request key (.move request .flag)

theorem advance_beyond {move : Move} (advanced : advance state request move stage = some moved)
    (here : state.stages request = stage) (beyond : moved.stage.beyond = some key) :
    stage.beyond = some key ∨ Passes state request key (.move request move) := by
  cases move with
  | flag =>
    obtain ⟨incoming, locked, rfl, ⟨_, rfl⟩ | ⟨down, rfl⟩⟩ := advance_flag advanced
    · cases beyond
    · obtain ⟨rfl, keyed⟩ := missed_beyond beyond
      exact Or.inr (.unsubscribed here keyed down)
  | read =>
    obtain ⟨incoming, locked, rfl, ⟨_, _, _, _, rfl⟩ | ⟨nothing, rfl⟩⟩ := advance_read advanced
    · cases beyond
    · obtain ⟨rfl, keyed⟩ := missed_beyond beyond
      rw [keyed, Option.bind_some] at nothing
      exact Or.inr (.absent here keyed nothing)
  | acquire =>
    obtain ⟨incoming, mine, rfl, _, _, rfl⟩ := advance_acquire advanced
    cases beyond
  | authenticated response =>
    obtain ⟨incoming, rfl, ⟨_, _, _, _, _, rfl⟩ | ⟨_, _, rfl⟩⟩ := advance_authenticated advanced
    · exact Or.inl beyond
    · cases beyond
  | indexed ok =>
    obtain ⟨incoming, _, _, _, rfl, ⟨_, rfl⟩ | ⟨_, rfl⟩⟩ := advance_indexed advanced
    · exact Or.inl beyond
    · cases beyond
  | loaded query =>
    obtain ⟨incoming, _, _, _, rfl, ⟨_, _, rfl⟩ | ⟨_, rfl⟩⟩ := advance_loaded advanced
    · exact Or.inl beyond
    · cases beyond
  | insert plan =>
    obtain ⟨incoming, _, _, _, rfl, ⟨_, rfl⟩ | ⟨_, _, _, _, rfl⟩⟩ := advance_insert advanced
    · cases beyond
    · cases beyond
  | answer now seen =>
    obtain ⟨_, _, _, _, _, rfl, _, rfl⟩ := advance_answer advanced
    cases beyond
  | cancel =>
    obtain rfl := advance_cancel advanced
    cases beyond

/-- **The only way past it.** -/
theorem beyond_of_step (stepped : step state label = some (next, out))
    (beyond : (next.stages request).beyond = some key) :
    (state.stages request).beyond = some key ∨ Passes state request key label := by
  cases label with
  | arrive other headers =>
    have fresh : ∀ stage : Stage lib, stage.beyond = none →
        (Function.update state.stages other stage request).beyond = some key →
        (state.stages request).beyond = some key := by
      intro stage free beyond
      by_cases same : request = other
      · subst same
        rw [Function.update_self, free] at beyond
        cases beyond
      · rwa [Function.update_of_ne same] at beyond
    obtain ⟨_, ⟨_, _, _, rfl⟩ | ⟨incoming, _, _, _, rfl | ⟨keyless, rfl⟩, rfl⟩⟩ :=
      step_arrive stepped
    · exact Or.inl (fresh _ rfl beyond)
    · exact Or.inl (fresh _ rfl beyond)
    · exact Or.inl (fresh (.authenticating incoming) keyless beyond)
  | move other move =>
    obtain ⟨moved, advanced, _, rfl⟩ := step_move stepped
    have beyond : (Function.update state.stages other moved.stage request).beyond = some key :=
      beyond
    by_cases same : request = other
    · subst same
      rw [Function.update_self] at beyond
      exact advance_beyond advanced rfl beyond
    · rw [Function.update_of_ne same] at beyond
      exact Or.inl beyond
  | cache label =>
    obtain ⟨_, _, _, _, _, rfl⟩ := step_cache stepped
    exact Or.inl beyond

/-- Right behind a fill nobody is past it. -/
theorem Locked.filled {plan : Plan Key} (locked : Locked state)
    (fills : (state.stages request).fills = some key)
    (stepped : step state (.move request (.insert plan)) = some (next, out)) (other : Nat) :
    (next.stages other).beyond ≠ some key := by
  obtain ⟨moved, advanced, _, rfl⟩ := step_move stepped
  intro beyond
  have beyond : (Function.update state.stages request moved.stage other).beyond = some key := beyond
  by_cases same : other = request
  · subst same
    rw [Function.update_self] at beyond
    obtain ⟨_, _, _, _, _, ⟨_, rfl⟩ | ⟨_, _, _, _, rfl⟩⟩ := advance_insert advanced
    · cases beyond
    · cases beyond
  · rw [Function.update_of_ne same] at beyond
    exact same (locked.unique beyond (beyond_of_fills fills))

end Lookup

/-! ### Two fills -/

section Fills

/-- The key of what a request is for. -/
def Origin.cacheKey (lib : Libraries) (origin : Origin) : Option Key :=
  origin.value.map fun value => ⟨lib.sha256 (asBytes value), origin.slug⟩

theorem cacheKey_originOf (request : Nat) (incoming : Incoming lib) :
    (originOf request incoming).cacheKey lib = incoming.request.key := by
  ext key
  rw [Incoming.key_eq_some]
  show incoming.value.map _ = some key ↔ _
  rw [Option.map_eq_some_iff]
  exact exists_congr fun value => and_congr_right fun _ => eq_comm

/-- The event is a fill of the key. -/
def Event.fills (lib : Libraries) (key : Key) : Event → Bool
  | .inserted origin _ => origin.cacheKey lib = some key
  | _ => false

/-- How often a key has been filled. -/
def fills (lib : Libraries) (key : Key) (trace : List Event) : Nat :=
  trace.countP (Event.fills lib key)

/-- The key has an entry that is younger than `ttl`. -/
def State.fresh (state : State lib) (key : Key) : Bool :=
  (Cache.lookup state.cache.now state.cache.inner key).isSome

/-- The subscription is up. -/
def Up (state : State lib) (_ : Label) : Prop :=
  state.cache.subscribed = true

/-- The subscription is up and the step leaves the key with such an entry. -/
def Keeps (key : Key) (state : State lib) (label : Label) : Prop :=
  Up state label ∧ (step state label).all (fun (next, _) => next.fresh key) = true

instance (state : State lib) (label : Label) : Decidable (Up state label) :=
  inferInstanceAs (Decidable (_ = _))

instance (key : Key) (state : State lib) (label : Label) : Decidable (Keeps key state label) :=
  inferInstanceAs (Decidable (_ ∧ _ = _))

variable {state next last : State lib} {key : Key} {label : Label} {out : List Event}

theorem fills_append (first second : List Event) :
    fills lib key (first ++ second) = fills lib key first + fills lib key second :=
  List.countP_append

/-- What the cache reports is no fill. -/
theorem fills_eq_zero (other : ∀ event ∈ out, event.fills lib key = false) :
    fills lib key out = 0 :=
  List.countP_eq_zero.mpr fun event member => Bool.eq_false_iff.mp (other event member)

theorem fills_audit (seen : List Cache.Seen) : fills lib key (seen.map .audit) = 0 := by
  refine fills_eq_zero fun event member => ?_
  obtain ⟨_, _, rfl⟩ := List.mem_map.mp member
  rfl

/-- **What a step fills.** -/
theorem fills_of_step (stepped : step state label = some (next, out)) :
    fills lib key out = 0 ∨ fills lib key out = 1 ∧ ∃ request plan,
      label = .move request (.insert plan) ∧ (state.stages request).fills = some key := by
  cases label with
  | arrive request headers =>
    obtain ⟨_, ⟨_, _, rfl, _⟩ | ⟨_, _, _, rfl, _⟩⟩ := step_arrive stepped
    · exact Or.inl rfl
    · exact Or.inl rfl
  | cache label =>
    obtain ⟨_, seen, _, _, rfl, _⟩ := step_cache stepped
    exact Or.inl (fills_audit seen)
  | move request move =>
    obtain ⟨moved, advanced, rfl, _⟩ := step_move stepped
    cases move with
    | flag =>
      obtain ⟨_, _, _, ⟨_, rfl⟩ | ⟨_, rfl⟩⟩ := advance_flag advanced
      · exact Or.inl rfl
      · exact Or.inl rfl
    | read =>
      obtain ⟨_, _, _, ⟨_, _, _, _, rfl⟩ | ⟨_, rfl⟩⟩ := advance_read advanced
      · exact Or.inl rfl
      · exact Or.inl rfl
    | acquire =>
      obtain ⟨_, _, _, _, _, rfl⟩ := advance_acquire advanced
      exact Or.inl rfl
    | authenticated response =>
      obtain ⟨_, _, ⟨_, _, _, _, _, rfl⟩ | ⟨_, _, rfl⟩⟩ := advance_authenticated advanced
      · exact Or.inl rfl
      · exact Or.inl rfl
    | indexed ok =>
      obtain ⟨_, _, _, _, _, ⟨_, rfl⟩ | ⟨_, rfl⟩⟩ := advance_indexed advanced
      · exact Or.inl rfl
      · exact Or.inl rfl
    | loaded query =>
      obtain ⟨_, _, _, _, _, ⟨_, _, rfl⟩ | ⟨_, rfl⟩⟩ := advance_loaded advanced
      · exact Or.inl rfl
      · exact Or.inl rfl
    | insert plan =>
      obtain ⟨incoming, _, _, _, here, ⟨_, rfl⟩ | ⟨mine, _, keyed, _, rfl⟩⟩ :=
        advance_insert advanced
      · exact Or.inl rfl
      · have single : fills lib key [.inserted (originOf request incoming) state.cache.now] =
            if incoming.request.key = some key then 1 else 0 := by
          rw [← cacheKey_originOf request incoming]
          unfold fills
          rw [List.countP_singleton]
          exact if_congr decide_eq_true_iff rfl rfl
        by_cases same : incoming.request.key = some key
        · refine Or.inr ⟨single.trans (if_pos same), request, plan, rfl, ?_⟩
          rw [here]
          exact same
        · exact Or.inl (single.trans (if_neg same))
    | answer now seen =>
      obtain ⟨_, _, _, _, taken, _, _, rfl⟩ := advance_answer advanced
      refine Or.inl ?_
      rw [fills_append, fills_audit]
      rfl
    | cancel =>
      obtain rfl := advance_cancel advanced
      exact Or.inl rfl

/-- While the key keeps a fresh entry and the subscription is up nobody gets past the lookup. -/
theorem Passes.elim {request : Nat} (passes : Passes state request key label)
    (fresh : state.fresh key = true) (up : state.cache.subscribed = true) : False := by
  cases passes with
  | absent _ _ nothing =>
    unfold State.fresh at fresh
    rw [nothing] at fresh
    cases fresh
  | unsubscribed _ _ down =>
    rw [up] at down
    cases down

/-- No fill yet, or one and nobody past the lookup of an entry that is still fresh. -/
def Once (key : Key) (out : List Event) (state : State lib) : Prop :=
  fills lib key out = 0 ∨ fills lib key out = 1 ∧ state.fresh key = true ∧
    ∀ request, (state.stages request).beyond ≠ some key

theorem once_of_step {during : List Event} (locked : Locked state) (once : Once key during state)
    (keeps : Keeps key state label) (stepped : step state label = some (next, out)) :
    Once key (during ++ out) next := by
  obtain ⟨up, fresh⟩ := keeps
  rw [stepped] at fresh
  have fresh : next.fresh key = true := fresh
  unfold Once
  rw [fills_append]
  rcases fills_of_step stepped with none | ⟨one, request, plan, same, here⟩
  · rw [none, Nat.add_zero]
    rcases once with zero | ⟨already, held, nobody⟩
    · exact Or.inl zero
    · refine Or.inr ⟨already, fresh, fun request beyond => ?_⟩
      rcases beyond_of_step stepped beyond with before | passes
      · exact nobody request before
      · exact passes.elim held up
  · subst same
    rcases once with zero | ⟨_, _, nobody⟩
    · rw [zero, one]
      exact Or.inr ⟨rfl, fresh, locked.filled here stepped⟩
    · exact absurd (beyond_of_fills here) (nobody request)

theorem once_of_run {during : List Event} (locked : Locked state)
    (run : Run step (Keeps key) state during last) : Locked last ∧ Once key during last := by
  refine @Run.invariant _ _ _ _ _ _ (fun during last => Locked last ∧ Once key during last)
    ⟨locked, Or.inl rfl⟩ (fun _ _ _ _ _ both keeps stepped => ?_) _ _ run
  exact ⟨locked_of_step both.1 stepped, once_of_step both.1 both.2 keeps stepped⟩

/-- **Single flight.** In every run of an instance: where a request is about to fill a key that
another has filled, the subscription having been up in between, it has read the cache under the lock
in between, when the key had no entry or one of age `ttl`; and as long as the subscription is up and
the key keeps a younger entry, the key is filled at most once. -/
theorem single_flight (lib : Libraries) (key : Key) (past : List Event) (state : State lib)
    (run : Run step (fun _ _ => True) (.init lib) past state) :
    (∀ first plan out filled, (state.stages first).fills = some key →
      step state (.move first (.insert plan)) = some (filled, out) →
      ∀ second between again, Run step Up filled between again →
        (again.stages second).fills = some key →
        ∃ before looking incoming seen next after, Run step Up filled before looking ∧
          looking.stages second = .reading incoming true ∧ incoming.request.key = some key ∧
          step looking (.move second .read) = some (next, seen) ∧ Run step Up next after again ∧
          between = before ++ seen ++ after ∧
          ∀ entry, looking.cache.inner.entries.lookup key = some entry →
            Cache.ttl ≤ looking.cache.now - entry.inserted) ∧
    ∀ during last, Run step (Keeps key) state during last → fills lib key during ≤ 1 := by
  have locked := locked_of_run run
  refine ⟨?_, fun during last keeping => ?_⟩
  · intro first plan out filled here stepped second between again run about
    obtain ⟨before, looking, label, next, seen, after, one, up, read, not, beyond, two, rfl⟩ :=
      @Run.turn _ _ _ _ _ _ (fun state => (state.stages second).beyond = some key) _ _ run
        (locked.filled here stepped second) (beyond_of_fills about)
    rcases beyond_of_step read beyond with already | passes
    · exact absurd already not
    · cases passes with
      | @absent incoming reading keyed nothing =>
        refine ⟨before, looking, incoming, seen, next, after, one, reading, keyed, read, two, rfl,
          ?_⟩
        intro entry found
        unfold Cache.lookup at nothing
        rw [found] at nothing
        by_contra young
        dsimp only at nothing
        rw [if_pos (not_le.mp young)] at nothing
        cases nothing
      | unsubscribed _ _ down =>
        unfold Up at up
        rw [up] at down
        cases down
  · rcases (once_of_run locked keeping).2 with zero | ⟨one, _⟩
    · rw [zero]
      exact Nat.zero_le 1
    · exact one.le

end Fills

end Flight

/-! ### Two visits -/

namespace Visit

/-- The key of the cookie's session. -/
def cookieKey : Key :=
  ⟨0x82bc36a76528d44436c1a4d8423d460bc20e5a32c4cf3e751c44246e365ee214#256, "wiki".toList⟩

/-- A request from its arrival to the point where it fills the cache. -/
def upToFill (request : Nat) : List Label :=
  [.arrive request headers, .move request .flag, .move request .read, .move request .acquire,
    .move request .flag, .move request .read,
    .move request (.authenticated (response (asBytes "u1".toList))), .move request (.indexed true),
    .move request (.loaded fun _ _ _ => some (some app))]

/-- A request fills the key. -/
def fill (request : Nat) : Label :=
  .move request (.insert (Plan.table Key))

/-- A request answers. -/
def answer (request : Nat) : Label :=
  .move request (.answer 0 0)

/-- Two fills with a `ttl` between them, and one fill with a hit behind it. -/
theorem twice :
    ((exec step (.init lib) (.cache (.swap true) :: upToFill 0)).any fun (state, _) =>
      (state.stages 0).fills = some cookieKey &&
      ((step state (fill 0)).any fun (filled, _) =>
        (exec (guarded step Up) filled
            (answer 0 :: .cache (.tick Cache.ttl) :: upToFill 1)).any fun (again, _) =>
          (again.stages 1).fills = some cookieKey) &&
      ((exec (guarded step (Keeps cookieKey)) state
          [fill 0, answer 0, .arrive 1 headers, .move 1 .flag, .move 1 .read, answer 1]).any
        fun (_, during) => fills lib cookieKey during = 1)) = true := by
  decide +kernel

end Visit

open Visit in
/-- The second fill has read an entry of age `ttl`; the hit fills nothing. -/
theorem single_flight_visit : ∃ state filled looking again : State lib, ∃ incoming,
    (state.stages 0).fills = some cookieKey ∧ (again.stages 1).fills = some cookieKey ∧
    (∃ before, Run step Up filled before looking) ∧ looking.stages 1 = .reading incoming true ∧
    incoming.request.key = some cookieKey ∧
    (∀ entry, looking.cache.inner.entries.lookup cookieKey = some entry →
      Cache.ttl ≤ looking.cache.now - entry.inserted) ∧
    ∃ during last, Run step (Keeps cookieKey) state during last ∧ fills lib cookieKey during = 1 ∧
      fills lib cookieKey during ≤ 1 := by
  obtain ⟨⟨state, past⟩, opened, shown⟩ := (Option.any_eq_true _ _).mp twice
  rw [Bool.and_eq_true, Bool.and_eq_true, decide_eq_true_iff] at shown
  obtain ⟨⟨first, twice⟩, once⟩ := shown
  obtain ⟨⟨filled, out⟩, stepped, twice⟩ := (Option.any_eq_true _ _).mp twice
  obtain ⟨⟨again, between⟩, done, second⟩ := (Option.any_eq_true _ _).mp twice
  obtain ⟨⟨last, during⟩, keeping, single⟩ := (Option.any_eq_true _ _).mp once
  have run : Run step (fun _ _ => True) (.init lib) past state :=
    Run.of_exec (fun _ _ _ => trivial) opened
  obtain ⟨apart, most⟩ := single_flight lib cookieKey past state run
  have kept := Run.of_exec_guarded keeping
  obtain ⟨before, looking, incoming, _, _, _, one, reading, keyed, _, _, _, old⟩ :=
    apart 0 _ out filled first stepped 1 between again (Run.of_exec_guarded done)
      (of_decide_eq_true second)
  exact ⟨state, filled, looking, again, incoming, first, of_decide_eq_true second, ⟨before, one⟩,
    reading, keyed, old, during, last, kept, of_decide_eq_true single, most during last kept⟩

end OpenBerat.Instance
