/-
**A kill and its retries.**

Kills of one sub, one after another, on one instance. An external step of a kill may report a
failure and have taken effect all the same, and the kill stops there; only the local `drop_sub` runs
whatever the `PUBLISH` reports. The next kill starts from what the others have left.

* `Upheld`: how far a kill has come, every step before reported success and has done its part.
* `retried`: a kill answers 200 exactly when no step of it failed, the index entry goes last, and
  after the first 200 nothing is left of the sub.
-/

import OpenBerat.Cache.Entries
import OpenBerat.Cache.Representation
import OpenBerat.Kill.Index
import OpenBerat.Lib.History

namespace OpenBerat.Retry

open Index (Fate)
open Lib (Everywhere Plan Run exec everywhere_concat everywhere_nil)

/-! ### Kills -/

/-- The external steps of a kill. -/
inductive Step
  | logoutAll
  | sessions
  | dropSessions
  | publishInvalidation
  | forget
  deriving DecidableEq

/-- 200 with the number of sessions, 404, or 503 with the step that failed. -/
inductive Response
  | killed (sessions : Nat)
  | noSuchUser
  | refused (step : Step)
  deriving DecidableEq

/-- The one response that is a 200. -/
def Response.ok : Response → Bool
  | .killed _ => true
  | _ => false

/-- What the kill does next, with the sessions that `SMEMBERS` listed. -/
inductive Stage
  /-- No kill is under way. -/
  | waiting
  | logoutAll
  | sessions
  | dropSessions (sessions : List Str)
  | publishInvalidation (sessions : List Str)
  | dropSub (sessions : List Str) (published : Bool)
  /-- `drop_sub` evicts. -/
  | dropping (sessions : List Str) (published : Bool)
  | forget (sessions : List Str)

/-- What a kill touches, and where it stands. -/
structure State where
  /-- The members of each sub's index entry. -/
  index : Str → List Str
  /-- The session keys that Redis holds. -/
  sessions : Str → Bool
  cache : Cache.State
  stage : Stage

/-- What a run of kills shows. -/
inductive Event
  | began
  | reported (step : Step) (ok : Bool)
  | deleted (keys : List Str)
  | published
  | forgotten
  | answered (response : Response)
  deriving DecidableEq

/-- A kill begins or goes on, or somebody else touches the cache or Redis. -/
inductive Label
  | begin
  | advance (fate : Fate) (plan : Plan Key)
  /-- Keycloak knows no such user. -/
  | noSuchUser
  | cache (label : Cache.Label)
  /-- What others do in Redis. -/
  | elsewhere (index : Str → List Str) (sessions : Str → Bool)

/-- The walk of `drop_sub`; the others are anybody's. -/
def killJob : Nat := 0

/-- The steps of the cache that are nobody's kill. -/
def free : Cache.Label → Bool
  | .walk job _ _ => killJob < job
  | _ => true

/-- What an external step reports, and where the kill goes from there. -/
def State.report (state : State) (step : Step) (fate : Fate) (next : Stage) : State × List Event :=
  if fate.ok then ({ state with stage := next }, [.reported step true])
  else ({ state with stage := .waiting }, [.reported step false, .answered (.refused step)])

/-- `DEL` of session keys. -/
def State.del (state : State) (keys : List Str) : State :=
  { state with sessions := fun key => state.sessions key && !keys.contains key }

section Machine

variable (http : HeaderText) (pathHash : Str → UInt64) (target : Str)

/-- The next step of the kill. -/
def advance (state : State) (fate : Fate) (plan : Plan Key) : Stage → Option (State × List Event)
  | .waiting => none
  | .logoutAll => some (state.report .logoutAll fate .sessions)
  | .sessions => some (state.report .sessions fate (.dropSessions (state.index target)))
  | .dropSessions [] => some ({ state with stage := .publishInvalidation [] }, [])
  | .dropSessions (key :: keys) =>
    if fate.executed then
      let (next, out) :=
        (state.del (key :: keys)).report .dropSessions fate (.publishInvalidation (key :: keys))
      some (next, .deleted (key :: keys) :: out)
    else some (state.report .dropSessions fate (.publishInvalidation (key :: keys)))
  | .publishInvalidation sessions =>
    some ({ state with stage := .dropSub sessions fate.ok },
      (if fate.executed then [.published] else []) ++ [.reported .publishInvalidation fate.ok])
  | .dropSub sessions published =>
    (Cache.step http pathHash state.cache (.walk killJob (.ofSub target) plan)).map
      fun (cache, _) =>
      ({ state with cache := cache, stage := .dropping sessions published }, [])
  | .dropping sessions published =>
    if state.cache.jobs killJob = [] then
      if published then some ({ state with stage := .forget sessions }, [])
      else some ({ state with stage := .waiting }, [.answered (.refused .publishInvalidation)])
    else none
  | .forget sessions =>
    let index := if fate.executed then Function.update state.index target [] else state.index
    some ({ state with index := index, stage := .waiting },
      (if fate.executed then [.forgotten] else []) ++ [.reported .forget fate.ok,
        .answered (if fate.ok then .killed sessions.length else .refused .forget)])

/-- One step, and what it shows. -/
def step (state : State) : Label → Option (State × List Event)
  | .begin =>
    match state.stage with
    | .waiting => some ({ state with stage := .logoutAll }, [.began])
    | _ => none
  | .advance fate plan => advance http pathHash target state fate plan state.stage
  | .noSuchUser =>
    match state.stage with
    | .logoutAll =>
      some ({ state with stage := .waiting }, [.reported .logoutAll false, .answered .noSuchUser])
    | _ => none
  | .cache label =>
    if free label then
      (Cache.step http pathHash state.cache label).map fun (cache, _) =>
        ({ state with cache := cache }, [])
    else none
  | .elsewhere index sessions => some ({ state with index := index, sessions := sessions }, [])

/-! ### What is claimed -/

/-- What the latest kill has shown. -/
def attempt (past : List Event) : List Event :=
  past.rtakeWhile (· ≠ .began)

/-- None of its steps has reported a failure. -/
def Unfailed (past : List Event) : Prop :=
  ∀ step, .reported step false ∉ attempt past

/-- Nothing has failed, and these steps have reported. -/
def Through (steps : List Step) (past : List Event) : Prop :=
  Unfailed past ∧ ∀ step ∈ steps, .reported step true ∈ attempt past

/-- The steps before the index entry goes; a list without sessions is nothing to delete. -/
def beforeForget : List Step :=
  [.publishInvalidation, .sessions, .logoutAll]

/-- A 200 is a kill without a failure, and one that has come through all its steps. The index entry
goes when the kill has come through those before. -/
def Good (before : List Event) : Event → Prop
  | .answered response => (response.ok = true ↔ Unfailed before) ∧
      (response.ok = true → Through (.forget :: beforeForget) before)
  | .forgotten => Through beforeForget before
  | _ => True

/-- No session activity of the sub but the kills: none of its cache entries is made, its index entry
stays, and no session key of its comes back. -/
def Quiet (sessions : List Str) : State → Label → Prop
  | _, .cache (.insert _ sub _ _) => sub ≠ target
  | state, .elsewhere index alive => index target = state.index target ∧
      ∀ key ∈ sessions, alive key = true → state.sessions key = true
  | _, _ => True

/-- The instance holds no entry of the sub. -/
def Clear (cache : Cache.State) : Prop :=
  ∀ key entry, cache.inner.entries.lookup key = some entry → entry.sub ≠ target

/-- What a kill leaves. -/
structure Killed (sessions : List Str) (past : List Event) (state : State) : Prop where
  deleted : ∀ key ∈ sessions, state.sessions key = false
  cleared : Clear target state.cache
  forgotten : state.index target = []
  published : .published ∈ past

end Machine

/-! ### The latest kill -/

section Attempt

variable {past : List Event} {event : Event}

theorem attempt_began : attempt (past ++ [.began]) = [] := by
  unfold attempt
  rw [List.rtakeWhile_concat]
  rfl

theorem attempt_concat (later : event ≠ .began) :
    attempt (past ++ [event]) = attempt past ++ [event] := by
  unfold attempt
  rw [List.rtakeWhile_concat, if_pos (decide_eq_true later)]

theorem unfailed_began : Unfailed (past ++ [.began]) := by
  intro step
  rw [attempt_began]
  exact List.not_mem_nil

theorem unfailed_concat (later : event ≠ .began) :
    Unfailed (past ++ [event]) ↔ Unfailed past ∧ ∀ step, event ≠ .reported step false := by
  unfold Unfailed
  rw [attempt_concat later, ← forall_and]
  refine forall_congr' fun step => ?_
  rw [List.mem_append, List.mem_singleton, not_or, ne_comm (a := event)]

variable {steps : List Step}

theorem Through.concat (through : Through steps past) (later : event ≠ .began)
    (fine : ∀ step, event ≠ .reported step false) : Through steps (past ++ [event]) := by
  refine ⟨(unfailed_concat later).mpr ⟨through.1, fine⟩, fun step member => ?_⟩
  rw [attempt_concat later]
  exact List.mem_append_left _ (through.2 step member)

/-- One step more. -/
theorem Through.reported (through : Through steps past) (step : Step) :
    Through (step :: steps) (past ++ [.reported step true]) := by
  have later : Event.reported step true ≠ .began := fun same => nomatch same
  have kept := through.concat later fun other same => nomatch same
  refine ⟨kept.1, List.forall_mem_cons.mpr ⟨?_, kept.2⟩⟩
  rw [attempt_concat later]
  exact List.mem_append_right _ (List.mem_singleton_self _)

theorem failed {step : Step} : ¬ Unfailed (past ++ [.reported step false]) := by
  have later : Event.reported step false ≠ .began := fun same => nomatch same
  rw [unfailed_concat later]
  exact fun both => both.2 step rfl

/-- A failure, and the answer that says so. -/
theorem good_refused {step : Step} {response : Response} (all : Everywhere Good past)
    (refused : response.ok = false) :
    Everywhere Good (past ++ [.reported step false, .answered response]) := by
  rw [← List.singleton_append, ← List.append_assoc, everywhere_concat, everywhere_concat]
  refine ⟨⟨all, trivial⟩, iff_of_false (Bool.eq_false_iff.mp refused) failed, fun ok => ?_⟩
  rw [refused] at ok
  cases ok

end Attempt

/-! ### How far a kill has come -/

section Invariant

variable {http : HeaderText} {pathHash : Str → UInt64} {target : Str} {sessions : List Str}
  {past out : List Event} {state next : State}

variable (sessions) in
/-- No session key of the sub is left. -/
def Gone (state : State) : Prop :=
  ∀ key ∈ sessions, state.sessions key = false

variable (target) in
/-- `drop_sub` has every entry of the sub before it. -/
def Covered (cache : Cache.State) : Prop :=
  ∀ key entry, cache.inner.entries.lookup key = some entry → entry.sub = target →
    key ∈ cache.jobs killJob

/-- What the `PUBLISH` has come to. -/
def Published (published : Bool) (past : List Event) : Prop :=
  if published then Through beforeForget past ∧ .published ∈ past else ¬ Unfailed past

variable (target sessions past state) in
/-- What the kill may rely on at the step it has come to. -/
def Upheld : Prop :=
  match state.stage with
  | .waiting => True
  | .logoutAll => Through [] past
  | .sessions => Through [.logoutAll] past
  | .dropSessions listed => Through [.sessions, .logoutAll] past ∧
      ∀ key ∈ sessions, state.sessions key = true → key ∈ listed
  | .publishInvalidation _ => Through [.sessions, .logoutAll] past ∧ Gone sessions state
  | .dropSub _ published => Published published past ∧ Gone sessions state
  | .dropping _ published => Published published past ∧ Gone sessions state ∧
      Covered target state.cache
  | .forget _ => Through beforeForget past ∧ .published ∈ past ∧ Gone sessions state ∧
      Clear target state.cache

variable (target sessions past state) in
/-- **What a run of kills keeps.** -/
structure Kept : Prop where
  good : Everywhere Good past
  upheld : Upheld target sessions past state
  index : state.index target = sessions ∨ (state.index target = [] ∧ Gone sessions state)
  killed : (∃ count, .answered (.killed count) ∈ past) → Killed target sessions past state
  indexed : state.cache.inner.Indexed
  idle : (∀ listed published, state.stage ≠ .dropping listed published) →
    state.cache.jobs killJob = []

variable (target sessions state next) in
/-- What no step brings back. -/
structure Frame : Prop where
  index : next.index target = state.index target
  sessions : ∀ key ∈ sessions, next.sessions key = true → state.sessions key = true
  cleared : Clear target state.cache → Clear target next.cache
  indexed : state.cache.inner.Indexed → next.cache.inner.Indexed

/-- The cache stays. -/
theorem Frame.same (index : next.index target = state.index target)
    (alive : ∀ key ∈ sessions, next.sessions key = true → state.sessions key = true)
    (cache : next.cache = state.cache) : Frame target sessions state next :=
  ⟨index, alive, by rw [cache]; exact id, by rw [cache]; exact id⟩

theorem Frame.gone (frame : Frame target sessions state next) (gone : Gone sessions state) :
    Gone sessions next := by
  intro key member
  refine Bool.eq_false_iff.mpr fun alive => ?_
  have old := frame.sessions key member alive
  rw [gone key member] at old
  cases old

theorem Killed.frame (killed : Killed target sessions past state)
    (frame : Frame target sessions state next) : Killed target sessions (past ++ out) next :=
  ⟨frame.gone killed.deleted, frame.cleared killed.cleared, frame.index.trans killed.forgotten,
    List.mem_append_left _ killed.published⟩

/-- A step that answers no 200 and leaves the index entry. -/
theorem Kept.proceed (kept : Kept target sessions past state)
    (frame : Frame target sessions state next)
    (good : Everywhere Good (past ++ out)) (upheld : Upheld target sessions (past ++ out) next)
    (fresh : ∀ count, .answered (.killed count) ∉ out)
    (idle : (∀ listed published, next.stage ≠ .dropping listed published) →
      next.cache.jobs killJob = []) :
    Kept target sessions (past ++ out) next := by
  refine ⟨good, upheld, ?_, ?_, frame.indexed kept.indexed, idle⟩
  · rw [frame.index]
    exact kept.index.imp_right fun both => ⟨both.1, frame.gone both.2⟩
  · rintro ⟨count, member⟩
    rcases List.mem_append.mp member with old | new
    · exact (kept.killed ⟨count, old⟩).frame frame
    · exact absurd new (fresh count)

/-! ### One step -/

section Elsewhere

variable {label : Cache.Label} {seen : List Cache.Seen} {cache : Cache.State}

theorem mine_of_step (quiet : Quiet target sessions state (.cache label))
    (stepped : Cache.step http pathHash state.cache label = some (cache, seen)) {key : Key}
    {entry : Cache.Entry} (found : cache.inner.entries.lookup key = some entry)
    (mine : entry.sub = target) :
    ∃ earlier, state.cache.inner.entries.lookup key = some earlier ∧ earlier.sub = target := by
  rcases Cache.lookup_of_step stepped found with
    ⟨earlier, old, like⟩ | ⟨sub, cached, plan, rfl, same⟩
  · exact ⟨earlier, old, like.sub.symm.trans mine⟩
  · exact absurd (same.symm.trans mine) quiet

theorem clear_of_step (quiet : Quiet target sessions state (.cache label))
    (stepped : Cache.step http pathHash state.cache label = some (cache, seen))
    (clear : Clear target state.cache) : Clear target cache := by
  intro key entry found mine
  obtain ⟨earlier, old, sub⟩ := mine_of_step quiet stepped found mine
  exact clear key earlier old sub

theorem not_walk_of_free (alone : free label = true) :
    ∀ scope plan, label ≠ .walk killJob scope plan := by
  rintro scope plan rfl
  have less : decide (killJob < killJob) = true := alone
  exact absurd (of_decide_eq_true less) (Nat.lt_irrefl _)

theorem covered_of_step (quiet : Quiet target sessions state (.cache label))
    (alone : free label = true)
    (stepped : Cache.step http pathHash state.cache label = some (cache, seen))
    (covered : Covered target state.cache) : Covered target cache := by
  intro key entry found mine
  obtain ⟨earlier, old, sub⟩ := mine_of_step quiet stepped found mine
  refine (Cache.walk_of_step (not_walk_of_free alone) stepped
    (covered key earlier old sub)).resolve_right
    fun absent => ?_
  rw [found] at absent
  cases absent

/-- The kill stands where it stood. -/
theorem Upheld.frame (upheld : Upheld target sessions past state)
    (frame : Frame target sessions state next) (stage : next.stage = state.stage)
    (covered : Covered target state.cache → Covered target next.cache) :
    Upheld target sessions past next := by
  unfold Upheld at upheld ⊢
  rw [stage]
  split
  · trivial
  · rename_i here
    rwa [here] at upheld
  · rename_i here
    rwa [here] at upheld
  · rename_i here
    rw [here] at upheld
    exact ⟨upheld.1, fun key member alive => upheld.2 key member (frame.sessions key member alive)⟩
  · rename_i here
    rw [here] at upheld
    exact ⟨upheld.1, frame.gone upheld.2⟩
  · rename_i here
    rw [here] at upheld
    exact ⟨upheld.1, frame.gone upheld.2⟩
  · rename_i here
    rw [here] at upheld
    exact ⟨upheld.1, frame.gone upheld.2.1, covered upheld.2.2⟩
  · rename_i here
    rw [here] at upheld
    exact ⟨upheld.1, upheld.2.1, frame.gone upheld.2.2.1, frame.cleared upheld.2.2.2⟩

theorem kept_cache (kept : Kept target sessions past state)
    (quiet : Quiet target sessions state (.cache label))
    (alone : free label = true)
    (stepped : Cache.step http pathHash state.cache label = some (cache, seen)) :
    Kept target sessions (past ++ []) { state with cache := cache } := by
  have frame : Frame target sessions state { state with cache := cache } :=
    ⟨rfl, fun _ _ => id, clear_of_step quiet stepped, fun indexed => indexed.step stepped⟩
  refine kept.proceed frame ?_ ?_ (fun _ member => nomatch member) fun still => ?_
  · rw [List.append_nil]
    exact kept.good
  · rw [List.append_nil]
    exact kept.upheld.frame frame rfl (covered_of_step quiet alone stepped)
  · refine List.eq_nil_iff_forall_not_mem.mpr fun key member => ?_
    have before := Cache.jobs_of_step (not_walk_of_free alone) stepped member
    rw [kept.idle still] at before
    cases before

end Elsewhere

theorem kept_elsewhere (kept : Kept target sessions past state) {index : Str → List Str}
    {alive : Str → Bool} (quiet : Quiet target sessions state (.elsewhere index alive)) :
    Kept target sessions (past ++ []) { state with index := index, sessions := alive } := by
  have frame : Frame target sessions state { state with index := index, sessions := alive } :=
    .same quiet.1 quiet.2 rfl
  refine kept.proceed frame ?_ ?_ (fun _ member => nomatch member) kept.idle
  · rw [List.append_nil]
    exact kept.good
  · rw [List.append_nil]
    exact kept.upheld.frame frame rfl id

/-- A step of the kill that changes neither Redis nor the cache. -/
theorem Frame.stage (stage : Stage) : Frame target sessions state { state with stage := stage } :=
  .same rfl (fun _ _ => id) rfl

theorem kept_begin (kept : Kept target sessions past state) (waiting : state.stage = .waiting) :
    Kept target sessions (past ++ [.began]) { state with stage := .logoutAll } := by
  refine kept.proceed (.stage _) (everywhere_concat.mpr ⟨kept.good, trivial⟩) ?_ ?_ fun _ => ?_
  · exact ⟨unfailed_began, fun _ member => nomatch member⟩
  · intro count member
    exact nomatch List.mem_singleton.mp member
  · refine kept.idle fun listed published same => ?_
    rw [waiting] at same
    cases same

/-- **A failure ends the kill.** -/
theorem kept_refused (kept : Kept target sessions past state) {step : Step} {response : Response}
    (refused : response.ok = false)
    (walked : ∀ listed published, state.stage ≠ .dropping listed published)
    (frame : Frame target sessions state next) (cache : next.cache = state.cache)
    (stage : next.stage = .waiting) :
    Kept target sessions (past ++ [.reported step false, .answered response]) next := by
  refine kept.proceed frame (good_refused kept.good refused) ?_ ?_ fun _ => ?_
  · unfold Upheld
    rw [stage]
    trivial
  · intro count member
    simp only [List.mem_cons, List.not_mem_nil, or_false, reduceCtorEq, false_or] at member
    obtain rfl := Event.answered.inj member
    cases refused
  · rw [cache]
    exact kept.idle walked

/-- **A step that reports success**, and what it has done before it reports. -/
theorem kept_reported (kept : Kept target sessions past state) {step : Step}
    (walked : ∀ listed published, state.stage ≠ .dropping listed published)
    (frame : Frame target sessions state next) (cache : next.cache = state.cache)
    (upheld : Upheld target sessions (past ++ [.reported step true]) next) :
    Kept target sessions (past ++ [.reported step true]) next := by
  refine kept.proceed frame (everywhere_concat.mpr ⟨kept.good, trivial⟩) upheld ?_ fun _ => ?_
  · intro count member
    exact nomatch List.mem_singleton.mp member
  · rw [cache]
    exact kept.idle walked

theorem kept_report (kept : Kept target sessions past state) {step : Step} {fate : Fate}
    {stage : Stage} (reported : state.report step fate stage = (next, out))
    (walked : ∀ listed published, state.stage ≠ .dropping listed published)
    (upheld :
      Upheld target sessions (past ++ [.reported step true]) { state with stage := stage }) :
    Kept target sessions (past ++ out) next := by
  unfold State.report at reported
  by_cases ok : fate.ok = true
  · rw [if_pos ok] at reported
    cases reported
    exact kept_reported kept walked (.stage _) rfl upheld
  · rw [if_neg ok] at reported
    cases reported
    exact kept_refused kept rfl walked (.stage _) rfl rfl

/-- A kill at some other stage than `drop_sub` has no walk. -/
theorem walked_of_stage {stage : Stage} (here : state.stage = stage)
    (other : ∀ listed published, stage ≠ .dropping listed published) :
    ∀ listed published, state.stage ≠ .dropping listed published :=
  fun listed published same => other listed published (here.symm.trans same)

theorem Upheld.at_stage (upheld : Upheld target sessions past state) {stage : Stage}
    (here : state.stage = stage) : Upheld target sessions past { state with stage := stage } := by
  unfold Upheld at upheld
  rw [here] at upheld
  exact upheld

theorem kept_sessions (kept : Kept target sessions past state) (here : state.stage = .sessions)
    {fate : Fate}
    (reported : state.report .sessions fate (.dropSessions (state.index target)) = (next, out)) :
    Kept target sessions (past ++ out) next := by
  have through : Through [.logoutAll] past := kept.upheld.at_stage here
  refine kept_report kept reported (walked_of_stage here fun _ _ same => nomatch same)
    ⟨through.reported .sessions, fun key member alive => ?_⟩
  rcases kept.index with whole | ⟨_, gone⟩
  · rw [whole]
    exact member
  · have dead := gone key member
    rw [dead] at alive
    cases alive

theorem Frame.del (keys : List Str) : Frame target sessions state (state.del keys) := by
  refine .same rfl (fun key _ alive => ?_) rfl
  exact (Bool.and_eq_true _ _ ▸ alive : state.sessions key = true ∧ _).1

theorem kept_dropSessions (kept : Kept target sessions past state) {key : Str} {keys : List Str}
    (here : state.stage = .dropSessions (key :: keys)) {fate : Fate} {plan : Plan Key}
    (advanced : advance http pathHash target state fate plan (.dropSessions (key :: keys)) =
      some (next, out)) : Kept target sessions (past ++ out) next := by
  obtain ⟨through, listed⟩ : Through [.sessions, .logoutAll] past ∧
      ∀ other ∈ sessions, state.sessions other = true → other ∈ key :: keys :=
    kept.upheld.at_stage here
  have walked := walked_of_stage here fun _ _ same => nomatch same
  have gone : Gone sessions (state.del (key :: keys)) := by
    intro other member
    refine Bool.eq_false_iff.mpr fun alive => ?_
    have both : state.sessions other = true ∧ (!(key :: keys).contains other) = true :=
      (Bool.and_eq_true _ _).mp alive
    have outside := both.2
    rw [List.contains_iff_mem.mpr (listed other member both.1)] at outside
    cases outside
  have noted : Kept target sessions (past ++ [.deleted (key :: keys)])
      (state.del (key :: keys)) := by
    refine kept.proceed (.del _) (everywhere_concat.mpr ⟨kept.good, trivial⟩) ?_ ?_ kept.idle
    · have told : Through [.sessions, .logoutAll] (past ++ [.deleted (key :: keys)]) :=
        through.concat (fun same => nomatch same) fun _ same => nomatch same
      unfold Upheld
      rw [show (state.del (key :: keys)).stage = .dropSessions (key :: keys) from here]
      exact ⟨told, fun other member alive => absurd alive
        (Bool.eq_false_iff.mp (gone other member))⟩
    · intro count member
      exact nomatch List.mem_singleton.mp member
  unfold advance at advanced
  dsimp only at advanced
  by_cases executed : fate.executed = true
  · rw [if_pos executed] at advanced
    have same : some (((state.del (key :: keys)).report .dropSessions fate
        (.publishInvalidation (key :: keys))).1, .deleted (key :: keys) ::
          ((state.del (key :: keys)).report .dropSessions fate
            (.publishInvalidation (key :: keys))).2) = some (next, out) := advanced
    cases same
    rw [List.append_cons]
    have told : Through [.sessions, .logoutAll] (past ++ [.deleted (key :: keys)]) :=
      (noted.upheld.at_stage here).1
    have still := (told.reported .dropSessions)
    exact kept_report noted rfl walked
      ⟨⟨still.1, fun step member => still.2 step (.tail _ member)⟩, gone⟩
  · rw [if_neg executed] at advanced
    have unanswered : ¬ fate.ok = true := by
      cases fate with
      | answered => exact absurd rfl executed
      | lost => exact fun same => nomatch same
      | failed => exact fun same => nomatch same
    unfold State.report at advanced
    rw [if_neg unanswered] at advanced
    cases advanced
    exact kept_refused kept rfl walked (.stage _) rfl rfl

theorem kept_publish (kept : Kept target sessions past state) {listed : List Str}
    (here : state.stage = .publishInvalidation listed) {fate : Fate} :
    Kept target sessions
      (past ++ ((if fate.executed then [.published] else []) ++
        [.reported .publishInvalidation fate.ok]))
      { state with stage := .dropSub listed fate.ok } := by
  obtain ⟨through, gone⟩ : Through [.sessions, .logoutAll] past ∧ Gone sessions state :=
    kept.upheld.at_stage here
  have idle := kept.idle (walked_of_stage here fun _ _ same => nomatch same)
  have told : Through [.sessions, .logoutAll] (past ++ [.published]) :=
    through.concat (fun same => nomatch same) fun _ same => nomatch same
  have noted : Everywhere Good (past ++ [.published]) := everywhere_concat.mpr ⟨kept.good, trivial⟩
  refine kept.proceed (.stage _) ?_ ?_ ?_ fun _ => idle
  · cases fate with
    | answered => exact List.append_assoc past _ _ ▸ everywhere_concat.mpr ⟨noted, trivial⟩
    | lost => exact List.append_assoc past _ _ ▸ everywhere_concat.mpr ⟨noted, trivial⟩
    | failed => exact everywhere_concat.mpr ⟨kept.good, trivial⟩
  · refine ⟨?_, gone⟩
    cases fate with
    | answered =>
      refine List.append_assoc past _ _ ▸ ⟨told.reported .publishInvalidation, ?_⟩
      exact List.mem_append_left _ (List.mem_append_right _ (List.mem_singleton_self _))
    | lost => exact List.append_assoc past _ _ ▸ failed
    | failed => exact failed
  · intro count member
    cases fate <;> simp [Fate.executed] at member

theorem kept_dropSub (kept : Kept target sessions past state) {listed : List Str} {published : Bool}
    (here : state.stage = .dropSub listed published) {plan : Plan Key} {cache : Cache.State}
    {seen : List Cache.Seen}
    (walked : Cache.step http pathHash state.cache (.walk killJob (.ofSub target) plan) =
      some (cache, seen)) :
    Kept target sessions (past ++ [])
      { state with cache := cache, stage := .dropping listed published } := by
  obtain ⟨came, gone⟩ : Published published past ∧ Gone sessions state := kept.upheld.at_stage here
  have quiet : Quiet target sessions state (.cache (.walk killJob (.ofSub target) plan)) := trivial
  have frame : Frame target sessions state
      { state with cache := cache, stage := .dropping listed published } :=
    ⟨rfl, fun _ _ => id, clear_of_step quiet walked, fun indexed => indexed.step walked⟩
  refine kept.proceed frame ?_ ?_ (fun _ member => nomatch member) fun still =>
    absurd rfl (still _ _)
  · rw [List.append_nil]
    exact kept.good
  · rw [List.append_nil]
    refine ⟨came, gone, ?_⟩
    obtain ⟨_, _, rfl⟩ := Cache.step_walk walked
    intro key entry found mine
    have before : key ∈ Cache.snapshot plan state.cache.now state.cache.inner (.ofSub target) :=
      mine ▸ kept.indexed.snapshot found
    show key ∈ Function.update state.cache.jobs killJob _ killJob
    rw [Function.update_self]
    exact before

/-- When the walk is over nothing of the sub is left in the cache. -/
theorem Covered.clear {cache : Cache.State} (covered : Covered target cache)
    (idle : cache.jobs killJob = []) : Clear target cache := by
  intro key entry found mine
  have left := covered key entry found mine
  rw [idle] at left
  cases left

theorem kept_dropping (kept : Kept target sessions past state) {listed : List Str}
    {published : Bool}
    (here : state.stage = .dropping listed published) (idle : state.cache.jobs killJob = []) :
    if published then Kept target sessions (past ++ []) { state with stage := .forget listed }
    else Kept target sessions (past ++ [.answered (.refused .publishInvalidation)])
      { state with stage := .waiting } := by
  obtain ⟨came, gone, covered⟩ : Published published past ∧ Gone sessions state ∧
      Covered target state.cache := kept.upheld.at_stage here
  cases published with
  | true =>
    refine kept.proceed (.stage _) ?_ ?_ (fun _ member => nomatch member) fun _ => idle
    · rw [List.append_nil]
      exact kept.good
    · rw [List.append_nil]
      exact ⟨came.1, came.2, gone, covered.clear idle⟩
  | false =>
    refine kept.proceed (.stage _) (everywhere_concat.mpr ⟨kept.good, ?_⟩) trivial ?_ fun _ => idle
    · exact ⟨iff_of_false (fun same => nomatch same) came, fun same => nomatch same⟩
    · intro count member
      exact nomatch List.mem_singleton.mp member

theorem kept_forget (kept : Kept target sessions past state) {listed : List Str}
    (here : state.stage = .forget listed) {fate : Fate} {plan : Plan Key}
    (advanced : advance http pathHash target state fate plan (.forget listed) = some (next, out)) :
    Kept target sessions (past ++ out) next := by
  obtain ⟨through, published, gone, clear⟩ : Through beforeForget past ∧ Event.published ∈ past ∧
      Gone sessions state ∧ Clear target state.cache := kept.upheld.at_stage here
  have walked := walked_of_stage here fun _ _ same => nomatch same
  have removed : Kept target sessions (past ++ [.forgotten])
      { state with index := Function.update state.index target [] } := by
    have told : Through beforeForget (past ++ [.forgotten]) :=
      through.concat (fun same => nomatch same) fun _ same => nomatch same
    have left : Killed target sessions (past ++ [.forgotten])
        { state with index := Function.update state.index target [] } :=
      ⟨gone, clear, Function.update_self .., List.mem_append_left _ published⟩
    refine ⟨everywhere_concat.mpr ⟨kept.good, through⟩, ?_, Or.inr ⟨Function.update_self .., gone⟩,
      fun _ => left, kept.indexed, kept.idle⟩
    unfold Upheld
    rw [show State.stage _ = .forget listed from here]
    exact ⟨told, left.published, gone, clear⟩
  have still : ∀ listed published,
      { state with index := Function.update state.index target [] }.stage ≠
          .dropping listed published :=
    walked
  cases fate with
  | failed =>
    cases advanced
    exact kept_refused kept rfl walked (.stage _) rfl rfl
  | lost =>
    cases advanced
    exact List.append_cons .. ▸ kept_refused removed rfl still (.stage _) rfl rfl
  | answered =>
    cases advanced
    have told : Through beforeForget (past ++ [.forgotten]) := (removed.upheld.at_stage here).1
    have all := told.reported .forget
    have answered : Good (past ++ [.forgotten] ++ [.reported .forget true])
        (.answered (.killed listed.length)) := by
      exact ⟨iff_of_true rfl all.1, fun _ => all⟩
    have good : Everywhere Good (past ++ [.forgotten, .reported .forget true,
        .answered (.killed listed.length)]) := by
      rw [List.append_cons, List.append_cons]
      have reported : Good (past ++ [.forgotten]) (.reported .forget true) := trivial
      exact everywhere_concat.mpr ⟨everywhere_concat.mpr ⟨removed.good, reported⟩, answered⟩
    exact ⟨good, trivial, removed.index, fun _ => ⟨gone, clear, Function.update_self ..,
      List.mem_append_left _ published⟩, kept.indexed, fun _ => kept.idle walked⟩

/-- **One step of the machine.** -/
theorem kept_of_step (kept : Kept target sessions past state) {label : Label}
    (quiet : Quiet target sessions state label)
    (stepped : step http pathHash target state label = some (next, out)) :
    Kept target sessions (past ++ out) next := by
  cases label with
  | begin =>
    unfold step at stepped
    dsimp only at stepped
    split at stepped
    · rename_i waiting
      cases stepped
      exact kept_begin kept waiting
    · cases stepped
  | noSuchUser =>
    unfold step at stepped
    dsimp only at stepped
    split at stepped
    · rename_i here
      cases stepped
      exact kept_refused kept rfl (walked_of_stage here fun _ _ same => nomatch same)
        (.stage _) rfl rfl
    · cases stepped
  | cache label =>
    unfold step at stepped
    dsimp only at stepped
    by_cases alone : free label = true
    · rw [if_pos alone, Option.map_eq_some_iff] at stepped
      obtain ⟨⟨cache, seen⟩, taken, same⟩ := stepped
      cases same
      exact kept_cache kept quiet alone taken
    · rw [if_neg alone] at stepped
      cases stepped
  | elsewhere index alive =>
    cases stepped
    exact kept_elsewhere kept quiet
  | advance fate plan =>
    have advanced : advance http pathHash target state fate plan state.stage = some (next, out) :=
      stepped
    cases here : state.stage with
    | waiting =>
      rw [here] at advanced
      cases advanced
    | logoutAll =>
      rw [here] at advanced
      have through : Through [] past := kept.upheld.at_stage here
      exact kept_report kept (Option.some.inj advanced)
        (walked_of_stage here fun _ _ same => nomatch same) (through.reported .logoutAll)
    | sessions =>
      rw [here] at advanced
      exact kept_sessions kept here (Option.some.inj advanced)
    | dropSessions listed =>
      rw [here] at advanced
      cases listed with
      | nil =>
        cases advanced
        obtain ⟨through, none⟩ : Through [.sessions, .logoutAll] past ∧
            ∀ key ∈ sessions, state.sessions key = true → key ∈ [] := kept.upheld.at_stage here
        have walked := walked_of_stage here fun _ _ same => nomatch same
        refine kept.proceed (.stage _) ?_ ?_ (fun _ member => nomatch member) fun _ =>
          kept.idle walked
        · rw [List.append_nil]
          exact kept.good
        · rw [List.append_nil]
          exact ⟨through, fun key member =>
            Bool.eq_false_iff.mpr fun alive => nomatch none key member alive⟩
      | cons key keys => exact kept_dropSessions kept here advanced
    | publishInvalidation listed =>
      rw [here] at advanced
      cases advanced
      exact kept_publish kept here
    | dropSub listed published =>
      rw [here] at advanced
      obtain ⟨⟨cache, seen⟩, walked, same⟩ := Option.map_eq_some_iff.mp advanced
      cases same
      exact kept_dropSub kept here walked
    | dropping listed published =>
      rw [here] at advanced
      unfold advance at advanced
      dsimp only at advanced
      by_cases idle : state.cache.jobs killJob = []
      · rw [if_pos idle] at advanced
        have came := kept_dropping kept here idle
        cases published with
        | true =>
          cases advanced
          exact came
        | false =>
          cases advanced
          exact came
      · rw [if_neg idle] at advanced
        cases advanced
    | forget listed =>
      rw [here] at advanced
      exact kept_forget kept here advanced

/-! ### A kill that nothing fails -/

/-- The steps of a kill that nothing fails. -/
def Unhurt (label : Label) : Prop :=
  label = .begin ∨ (∃ plan, label = .advance .answered plan) ∨ label = .cache (.evict killJob)

/-- The kills' own steps. -/
def Label.own : Label → Bool
  | .cache (.evict _) => true
  | .cache _ => false
  | .elsewhere .. => false
  | _ => true

theorem quiet_of_own {label : Label} (own : label.own = true) (state : State) :
    Quiet target sessions state label := by
  cases label with
  | cache label =>
    cases label with
    | evict job => trivial
    | _ => cases own
  | elsewhere index alive => cases own
  | _ => trivial

theorem Unhurt.own {label : Label} (unhurt : Unhurt label) : label.own = true := by
  rcases unhurt with rfl | ⟨_, rfl⟩ | rfl
  · rfl
  · rfl
  · rfl

variable (http pathHash target state) in
/-- Such steps lead to a 200. -/
def Succeeds : Prop :=
  ∃ labels last out, exec (step http pathHash target) state labels = some (last, out) ∧
    (∀ label ∈ labels, Unhurt label) ∧ ∃ count, .answered (.killed count) ∈ out

theorem Succeeds.lead {label : Label} (unhurt : Unhurt label)
    (stepped : step http pathHash target state label = some (next, out))
    (rest : Succeeds http pathHash target next) : Succeeds http pathHash target state := by
  obtain ⟨labels, last, trace, done, all, count, answered⟩ := rest
  exact ⟨label :: labels, last, out ++ trace, Lib.exec_cons stepped done,
    List.forall_mem_cons.mpr ⟨unhurt, all⟩, count, List.mem_append_right _ answered⟩

theorem unhurt_advance : Unhurt (.advance .answered (Plan.table Key)) :=
  Or.inr (Or.inl ⟨_, rfl⟩)

theorem succeeds_forget {listed : List Str} (here : state.stage = .forget listed) :
    Succeeds http pathHash target state := by
  have stepped : step http pathHash target state (.advance .answered (Plan.table Key)) =
      advance http pathHash target state .answered (Plan.table Key) (.forget listed) := by
    unfold step
    rw [here]
  refine ⟨[.advance .answered (Plan.table Key)], _, _, Lib.exec_cons stepped rfl,
    List.forall_mem_singleton.mpr unhurt_advance, listed.length, ?_⟩
  exact List.mem_append_left _ (List.mem_append_right _ (List.mem_cons_of_mem _ List.mem_cons_self))

theorem succeeds_dropping {listed : List Str} {keys : List Key}
    (here : state.stage = .dropping listed true) (left : state.cache.jobs killJob = keys) :
    Succeeds http pathHash target state := by
  induction keys generalizing state with
  | nil =>
    have stepped : step http pathHash target state (.advance .answered (Plan.table Key)) =
        some ({ state with stage := .forget listed }, []) := by
      unfold step
      rw [here]
      exact if_pos left
    exact .lead unhurt_advance stepped (succeeds_forget rfl)
  | cons key keys ih =>
    obtain ⟨cache, evicting, rest, _⟩ :=
      @Cache.exists_step_evict http pathHash state.cache killJob key keys left
    have stepped : step http pathHash target state (.cache (.evict killJob)) =
        some ({ state with cache := cache }, []) :=
      Option.map_eq_some_iff.mpr ⟨(cache, []), evicting, rfl⟩
    exact .lead (Or.inr (Or.inr rfl)) stepped (ih here rest)

/-- **From wherever the kills before it have left off.** -/
theorem succeeds_waiting (here : state.stage = .waiting) (idle : state.cache.jobs killJob = []) :
    Succeeds http pathHash target state := by
  have began : step http pathHash target state .begin =
      some ({ state with stage := .logoutAll }, [.began]) := by
    unfold step
    rw [here]
  have walking : ∀ (listed : List Str) (alive : Str → Bool), Succeeds http pathHash target
      { state with sessions := alive, stage := .publishInvalidation listed } := by
    intro listed alive
    have walked : ∃ cache seen, Cache.step http pathHash state.cache
        (.walk killJob (.ofSub target) (Plan.table Key)) = some (cache, seen) :=
      ⟨_, _, if_pos idle⟩
    obtain ⟨cache, seen, walked⟩ := walked
    have dropped : step http pathHash target
        { state with sessions := alive, stage := .dropSub listed true }
        (.advance .answered (Plan.table Key)) =
          some ({ state with
            sessions := alive, cache := cache, stage := .dropping listed true }, []) :=
      Option.map_eq_some_iff.mpr ⟨_, walked, rfl⟩
    exact .lead unhurt_advance rfl (.lead unhurt_advance dropped (succeeds_dropping rfl rfl))
  refine .lead (Or.inl rfl) began (.lead unhurt_advance rfl (.lead unhurt_advance rfl ?_))
  cases listed : state.index target with
  | nil => exact .lead unhurt_advance rfl (walking [] state.sessions)
  | cons key keys => exact .lead unhurt_advance rfl (walking (key :: keys) _)

/-! ### Any number of kills -/

variable (http pathHash) in
/-- No kill is under way, and the cache is one that has come about. -/
structure Ready (start : State) : Prop where
  waiting : start.stage = .waiting
  cached : ∃ past, Run (Cache.step http pathHash) (fun _ _ => True) .init past start.cache
  idle : start.cache.jobs killJob = []

theorem kept_ready {start : State} (ready : Ready http pathHash start) :
    Kept target (start.index target) [] start := by
  obtain ⟨past, run⟩ := ready.cached
  have indexed : start.cache.inner.Indexed :=
    @Run.invariant _ _ _ _ _ _ (fun _ cache => cache.inner.Indexed) (fun _ _ found => nomatch found)
      (fun _ _ _ _ _ indexed _ stepped => indexed.step stepped) _ _ run
  refine ⟨everywhere_nil _, ?_, Or.inl rfl, ?_, indexed, fun _ => ready.idle⟩
  · unfold Upheld
    rw [ready.waiting]
    trivial
  · rintro ⟨_, member⟩
    cases member

/-- The invariant over a run. -/
theorem kept_of_run (kept : Kept target sessions past state)
    (run : Run (step http pathHash target) (Quiet target sessions) state out next) :
    Kept target sessions (past ++ out) next := by
  refine @Run.invariant _ _ _ _ _ _ (fun out next => Kept target sessions (past ++ out) next) ?_
    (fun trace state label next out kept quiet stepped => ?_) _ _ run
  · rwa [List.append_nil]
  · rw [← List.append_assoc]
    exact kept_of_step kept quiet stepped

/-- **Retrying converges.** In every run of kills of one sub, whatever fails: a 200 is answered
exactly where no step of the kill reported a failure, and the index entry goes exactly once nothing
is left behind it; after the first 200 nothing is left of the sub; and between two kills, one that
nothing fails answers 200 and leaves just that. -/
theorem retried (http : HeaderText) (pathHash : Str → UInt64) (target : Str) (start : State)
    (ready : Ready http pathHash start) (trace : List Event) (state : State)
    (run : Run (step http pathHash target) (Quiet target (start.index target)) start trace state) :
    Everywhere Good trace ∧
    (state.index target = start.index target ∨
      state.index target = [] ∧ ∀ key ∈ start.index target, state.sessions key = false) ∧
    ((∃ count, .answered (.killed count) ∈ trace) →
      Killed target (start.index target) trace state) ∧
    (state.stage = .waiting → ∃ labels last out,
      exec (step http pathHash target) state labels = some (last, out) ∧
      (∀ label ∈ labels, Unhurt label) ∧ (∃ count, .answered (.killed count) ∈ out) ∧
      Killed target (start.index target) out last) := by
  have kept : Kept target (start.index target) ([] ++ trace) state :=
    kept_of_run (kept_ready ready) run
  rw [List.nil_append] at kept
  refine ⟨kept.good, kept.index, kept.killed, fun waiting => ?_⟩
  have idle : state.cache.jobs killJob = [] := by
    refine kept.idle fun listed published same => ?_
    rw [waiting] at same
    cases same
  have anew : Kept target (start.index target) [] state := by
    refine ⟨everywhere_nil _, ?_, kept.index, ?_, kept.indexed, kept.idle⟩
    · unfold Upheld
      rw [waiting]
      trivial
    · rintro ⟨_, member⟩
      cases member
  obtain ⟨labels, last, out, done, unhurt, answered⟩ := succeeds_waiting waiting idle
  have again := kept_of_run anew
    (Run.of_exec (fun label member state => quiet_of_own (unhurt label member).own state) done)
  exact ⟨labels, last, out, done, unhurt, answered, again.killed answered⟩

end Invariant

/-! ### Two failures -/

namespace Twice

open Cache.TwoSubjects (inner pathHash)

/-- The user. -/
def sub : Str := "u1".toList

/-- The user's session. -/
def session : Str := "_oauth2_proxy-a".toList

/-- One session, and an entry of each of two subjects. -/
def start : State where
  index other := if other = sub then [session] else []
  sessions key := key = session
  cache := { Cache.State.init with inner := inner }
  stage := .waiting

/-- The `DEL` loses its answer, then the `PUBLISH` is not executed, and then nothing fails. -/
def schedule : List Label :=
  let next (fate : Fate) : Label := .advance fate (Plan.table Key)
  [.begin, next .answered, next .answered, next .lost,
    .begin, next .answered, next .answered, next .answered, next .failed, next .answered,
    .cache (.evict killJob), next .answered,
    .begin, next .answered, next .answered, next .answered, next .answered, next .answered,
    next .answered, next .answered]

/-- What the three kills show, the last of them a 200. -/
def trace : List Event :=
  [.began, .reported .logoutAll true, .reported .sessions true, .deleted [session],
    .reported .dropSessions false, .answered (.refused .dropSessions),
    .began, .reported .logoutAll true, .reported .sessions true, .deleted [session],
    .reported .dropSessions true, .reported .publishInvalidation false,
    .answered (.refused .publishInvalidation),
    .began, .reported .logoutAll true, .reported .sessions true, .deleted [session],
    .reported .dropSessions true, .published, .reported .publishInvalidation true, .forgotten,
    .reported .forget true, .answered (.killed 1)]

theorem ready : Ready HeaderText.documented pathHash start :=
  ⟨rfl, ⟨[], Cache.TwoSubjects.run_inner⟩, rfl⟩

theorem shown : (exec (step HeaderText.documented pathHash sub) start schedule).map Prod.snd =
    some trace := by rfl

end Twice

open Twice Cache.TwoSubjects in
/-- The third kill comes through. -/
theorem retried_twice : ∃ state, Run (step HeaderText.documented pathHash sub)
    (Quiet sub (start.index sub)) start trace state ∧
      Killed sub (start.index sub) trace state := by
  obtain ⟨⟨state, out⟩, done, same⟩ := Option.map_eq_some_iff.mp shown
  obtain rfl : out = trace := same
  have own : schedule.all Label.own = true := rfl
  have quiet : ∀ label ∈ schedule, ∀ state, Quiet sub (start.index sub) state label :=
    fun label member => quiet_of_own (List.all_eq_true.mp own label member)
  have run := Run.of_exec quiet done
  exact ⟨state, run,
    (retried HeaderText.documented pathHash sub start ready _ state run).2.2.1 ⟨1, by decide⟩⟩

end OpenBerat.Retry
