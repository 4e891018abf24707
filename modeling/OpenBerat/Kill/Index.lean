/-
**The session index.**

Index writes, kills and logouts as tasks of any number of instances over one Redis. A task runs one
command at a time, and each command is answered, or executed with its answer lost, or not executed.
An `EXPIRE` changes no member, so the life time of an index entry is left out.

* `Kept`: a task that has read or deleted knows what may still stand when it takes members away.
* `index_complete_iff`: as long as members are taken away in order, every recorded session that has
  not been deleted since is a member, and the first removal out of order ends that.
* `index_loses`: a session indexed between the `SMEMBERS` of a kill and its `DEL`.
-/

import OpenBerat.Lib.History
import OpenBerat.Lib.Run
import OpenBerat.Text

namespace OpenBerat.Index

open Lib (Run Standing exec guarded logged)

/-! ### Tasks -/

/-- What becomes of one command. -/
inductive Fate
  | answered
  | lost
  | failed
  deriving DecidableEq

/-- Redis has executed the command. -/
def Fate.executed : Fate → Bool
  | .failed => false
  | _ => true

/-- The task has its answer. -/
def Fate.ok : Fate → Bool
  | .answered => true
  | _ => false

/-- Where a kill stands: what it does next. -/
inductive KillStage
  | logoutAll
  | sessions
  | dropSessions (sessions : List Str)
  | publishInvalidation
  | dropSub (published : Bool)
  | forget
  deriving DecidableEq

/-- Where a logout stands. -/
inductive LogoutStage
  | signOut
  | dropSessions
  | publishInvalidation
  | dropSub (published : Bool)
  | forgetSession
  deriving DecidableEq

/-- The command that a task is at. -/
inductive Task
  | idle
  | sadd (sub key : Str)
  | expire (sub key : Str)
  | kill (sub : Str) (stage : KillStage)
  | logout (sub key : Str) (stage : LogoutStage)
  | returned
  deriving DecidableEq

/-- What a task can be started for: a `/decide` miss or an `/api` call, a kill, a logout. -/
inductive Job
  | record (sub key : Str)
  | kill (sub : Str)
  | logout (sub key : Str)
  deriving DecidableEq

/-- The first command of a job. -/
def Job.start : Job → Task
  | .record sub key => .sadd sub key
  | .kill sub => .kill sub .logoutAll
  | .logout sub key => .logout sub key .signOut

/-- What Redis has executed. -/
inductive Command
  | recorded (sub key : Str)
  | listed (task : Nat) (sub : Str)
  | deleted (task : Nat) (keys : List Str)
  | published (task : Nat) (sub : Str)
  | forgotten (sub : Str)
  | removed (sub key : Str)
  deriving DecidableEq

/-- The index, and the tasks at work on it. -/
structure State where
  /-- The members of each sub's index entry. -/
  index : Str → List Str
  tasks : Nat → Task

/-- An empty index before any task. -/
def State.init : State :=
  ⟨fun _ => [], fun _ => .idle⟩

/-- Members, what the task does next, and what Redis has executed. -/
abbrev Effect := (Str → List Str) × Task × List Command

/-- The next command of a kill. -/
def advanceKill (task : Nat) (index : Str → List Str) (sub : Str) (fate : Fate) : KillStage → Effect
  | .logoutAll => (index, if fate.ok then .kill sub .sessions else .returned, [])
  | .sessions =>
    if fate.ok then (index, .kill sub (.dropSessions (index sub)), [.listed task sub])
    else (index, .returned, [])
  | .dropSessions [] => (index, .kill sub .publishInvalidation, [])
  | .dropSessions (key :: keys) =>
    (index, if fate.ok then .kill sub .publishInvalidation else .returned,
      if fate.executed then [.deleted task (key :: keys)] else [])
  | .publishInvalidation =>
    (index, .kill sub (.dropSub fate.ok), if fate.executed then [.published task sub] else [])
  | .dropSub published => (index, if published then .kill sub .forget else .returned, [])
  | .forget =>
    if fate.executed then (Function.update index sub [], .returned, [.forgotten sub])
    else (index, .returned, [])

/-- The next command of a logout. -/
def advanceLogout (task : Nat) (index : Str → List Str) (sub key : Str) (fate : Fate) :
    LogoutStage → Effect
  | .signOut => (index, if fate.ok then .logout sub key .dropSessions else .returned, [])
  | .dropSessions =>
    (index, if fate.ok then .logout sub key .publishInvalidation else .returned,
      if fate.executed then [.deleted task [key]] else [])
  | .publishInvalidation =>
    (index, .logout sub key (.dropSub fate.ok), if fate.executed then [.published task sub] else [])
  | .dropSub published =>
    (index, if published then .logout sub key .forgetSession else .returned, [])
  | .forgetSession =>
    if fate.executed then
      (Function.update index sub ((index sub).filter (· ≠ key)), .returned, [.removed sub key])
    else (index, .returned, [])

/-- The next command of a task, nothing where it has none. -/
def advance (task : Nat) (index : Str → List Str) (fate : Fate) : Task → Option Effect
  | .idle => none
  | .sadd sub key =>
    if fate.executed then
      some (Function.update index sub ((index sub).insert key),
        if fate.ok then .expire sub key else .returned, [.recorded sub key])
    else some (index, .returned, [])
  | .expire _ _ => some (index, .returned, [])
  | .kill sub stage => some (advanceKill task index sub fate stage)
  | .logout sub key stage => some (advanceLogout task index sub key fate stage)
  | .returned => none

/-- A task begins, or its next command is answered. -/
inductive Label
  | begin (task : Nat) (job : Job)
  | advance (task : Nat) (fate : Fate)
  deriving DecidableEq

/-- One step, with the commands that Redis has executed. -/
def step (state : State) : Label → Option (State × List Command)
  | .begin task job =>
    if state.tasks task = .idle then
      some ({ state with tasks := Function.update state.tasks task job.start }, [])
    else none
  | .advance task fate =>
    match advance task state.index fate (state.tasks task) with
    | none => none
    | some (index, next, out) => some (⟨index, Function.update state.tasks task next⟩, out)

/-! ### What the index owes -/

/-- `Index::record` has recorded the session for the sub, and `drop_sessions` has not deleted it
since. -/
def Outstanding (sub key : Str) (past : List Command) : Prop :=
  Standing (· = .recorded sub key) (fun event => ∃ task keys, event = .deleted task keys ∧
    key ∈ keys)
    past

/-- Every session recorded and not deleted since is a member. -/
def Complete (past : List Command) (state : State) : Prop :=
  ∀ sub key, Outstanding sub key past → key ∈ state.index sub

/-- The task takes members away in order: a kill finds no session recorded for the sub after its
`SMEMBERS` and not deleted since, a logout does not find its own session recorded after its `DEL`
and not deleted since. -/
def Orderly (past : List Command) (task : Nat) : Task → Prop
  | .kill sub .forget => ∀ before after, past = before ++ .listed task sub :: after →
      ∀ key, ¬ Outstanding sub key after
  | .logout sub key .forgetSession => ∀ before after,
      past = before ++ .deleted task [key] :: after → ¬ Outstanding sub key after
  | _ => True

/-- Members are taken away in order, where this step takes any. -/
def InOrder : List Command × State → Label → Prop
  | _, .begin _ _ => True
  | (past, state), .advance task fate =>
    fate.executed = true → Orderly past task (state.tasks task)

theorem outstanding_concat {sub key : Str} {past : List Command} {event : Command} :
    Outstanding sub key (past ++ [event]) ↔ event = .recorded sub key ∨
      (Outstanding sub key past ∧ ¬ ∃ task keys, event = .deleted task keys ∧ key ∈ keys) :=
  Lib.standing_concat

theorem outstanding_of_suffix {sub key : Str} {before after : List Command}
    (later : Outstanding sub key after) : Outstanding sub key (before ++ after) :=
  Lib.standing_append.mpr (Or.inl later)

/-- An event that neither records nor deletes changes nothing that is owed. -/
theorem outstanding_quiet {sub key : Str} {past : List Command} {event : Command}
    (still : ∀ sub key, event ≠ .recorded sub key)
    (kept : ∀ task keys, event ≠ .deleted task keys) :
    Outstanding sub key (past ++ [event]) ↔ Outstanding sub key past := by
  rw [outstanding_concat]
  refine ⟨?_, fun standing => Or.inr ⟨standing, ?_⟩⟩
  · rintro (same | ⟨standing, _⟩)
    · exact absurd same (still sub key)
    · exact standing
  · rintro ⟨task, keys, same, _⟩
    exact kept task keys same

/-! ### What a task knows -/

/-- Since the mark, what stands for the sub is excused or was recorded after the mark. -/
def Accounted (mark : Command) (sub : Str) (excused : Str → Prop) (past : List Command) : Prop :=
  ∃ before after, past = before ++ mark :: after ∧
    ∀ key, Outstanding sub key past → excused key ∨ Outstanding sub key after

/-- What a kill knows at each stage, and what a logout knows. -/
def Kept (past : List Command) (task : Nat) : Task → Prop
  | .kill sub (.dropSessions sessions) => Accounted (.listed task sub) sub (· ∈ sessions) past
  | .kill sub .publishInvalidation => Accounted (.listed task sub) sub (fun _ => False) past
  | .kill sub (.dropSub _) => Accounted (.listed task sub) sub (fun _ => False) past
  | .kill sub .forget => Accounted (.listed task sub) sub (fun _ => False) past
  | .logout sub key .publishInvalidation => Accounted (.deleted task [key]) sub (· ≠ key) past
  | .logout sub key (.dropSub _) => Accounted (.deleted task [key]) sub (· ≠ key) past
  | .logout sub key .forgetSession => Accounted (.deleted task [key]) sub (· ≠ key) past
  | _ => True

section Tasks

variable {mark : Command} {sub key : Str} {excused : Str → Prop} {past out : List Command}
  {state next : State} {task : Nat}

theorem Accounted.concat (known : Accounted mark sub excused past) (event : Command) :
    Accounted mark sub excused (past ++ [event]) := by
  obtain ⟨before, after, rfl, account⟩ := known
  refine ⟨before, after ++ [event], ?_, fun key standing => ?_⟩
  · rw [List.append_assoc, List.cons_append]
  · rcases outstanding_concat.mp standing with raised | ⟨standing, kept⟩
    · exact Or.inr (outstanding_concat.mpr (Or.inl raised))
    · rcases account key standing with excuse | later
      · exact Or.inl excuse
      · exact Or.inr (outstanding_concat.mpr (Or.inr ⟨later, kept⟩))

theorem Accounted.append (known : Accounted mark sub excused past) (out : List Command) :
    Accounted mark sub excused (past ++ out) := by
  induction out using List.reverseRecOn with
  | nil => rwa [List.append_nil]
  | append_singleton rest event ih =>
    rw [← List.append_assoc]
    exact ih.concat event

/-- What has been deleted needs no excuse. -/
theorem Accounted.deleted {other : Nat} {keys : List Str}
    (known : Accounted mark sub (· ∈ keys) past) :
    Accounted mark sub (fun _ => False) (past ++ [.deleted other keys]) := by
  obtain ⟨before, after, shape, account⟩ := known.concat (.deleted other keys)
  refine ⟨before, after, shape, fun key standing => Or.inr ?_⟩
  rcases account key standing with excuse | later
  · rcases outstanding_concat.mp standing with same | ⟨_, kept⟩
    · cases same
    · exact absurd ⟨other, keys, rfl, excuse⟩ kept
  · exact later

theorem Kept.append {current : Task} (known : Kept past task current) (out : List Command) :
    Kept (past ++ out) task current := by
  unfold Kept at known ⊢
  split
  case h_8 => trivial
  all_goals exact Accounted.append known out

/-- The index is complete, and every task knows what it may take away. -/
structure Sound (past : List Command) (state : State) : Prop where
  complete : Complete past state
  kept : ∀ task, Kept past task (state.tasks task)

/-! ### One command -/

/-- What the next command of a task has to keep. -/
structure Advanced (past : List Command) (task : Nat) (effect : Effect) : Prop where
  complete : ∀ sub key, Outstanding sub key (past ++ effect.2.2) → key ∈ effect.1 sub
  kept : Kept (past ++ effect.2.2) task effect.2.1

theorem Advanced.silent {index : Str → List Str} {current : Task}
    (complete : ∀ sub key, Outstanding sub key past → key ∈ index sub)
    (kept : Kept past task current) : Advanced past task (index, current, []) := by
  refine ⟨?_, ?_⟩
  · rw [List.append_nil]
    exact complete
  · rw [List.append_nil]
    exact kept

/-- A command that neither records nor takes members away. -/
theorem Advanced.quiet {index : Str → List Str} {current : Task} {event : Command}
    (complete : ∀ sub key, Outstanding sub key past → key ∈ index sub)
    (still : ∀ sub key, event ≠ .recorded sub key)
    (kept : Kept (past ++ [event]) task current) :
    Advanced past task (index, current, [event]) := by
  refine ⟨fun sub key standing => ?_, kept⟩
  rcases outstanding_concat.mp standing with same | ⟨standing, _⟩
  · exact absurd same (still sub key)
  · exact complete sub key standing

theorem kept_returned : Kept past task .returned := trivial

theorem kept_logout : Kept past task (.logout sub key .dropSessions) := trivial

/-- **The kill.** -/
theorem advanceKill_sound {index : Str → List Str} {fate : Fate} {stage : KillStage}
    (complete : ∀ sub key, Outstanding sub key past → key ∈ index sub)
    (known : Kept past task (.kill sub stage))
    (order : fate.executed = true → stage = .forget → ∀ before after,
      past = before ++ .listed task sub :: after → ∀ key, ¬ Outstanding sub key after) :
    Advanced past task (advanceKill task index sub fate stage) := by
  cases stage with
  | logoutAll =>
    refine Advanced.silent complete ?_
    cases fate <;> trivial
  | sessions =>
    by_cases ok : fate.ok = true
    · simp only [advanceKill, if_pos ok]
      refine Advanced.quiet complete (fun _ _ => Command.noConfusion) ?_
      refine ⟨past, [], rfl, fun key standing => Or.inl (complete sub key ?_)⟩
      exact (outstanding_quiet (fun _ _ => Command.noConfusion)
        (fun _ _ => Command.noConfusion)).mp standing
    · simp only [advanceKill, if_neg ok]
      exact Advanced.silent complete kept_returned
  | dropSessions sessions =>
    cases sessions with
    | nil =>
      obtain ⟨before, after, shape, account⟩ := known
      refine Advanced.silent complete ⟨before, after, shape, fun key standing => ?_⟩
      exact (account key standing).imp_left fun member => nomatch member
    | cons first rest =>
      cases fate with
      | answered => exact Advanced.quiet complete (fun _ _ => Command.noConfusion) known.deleted
      | lost => exact Advanced.quiet complete (fun _ _ => Command.noConfusion) kept_returned
      | failed => exact Advanced.silent complete kept_returned
  | publishInvalidation =>
    have published := known.append [.published task sub]
    cases fate with
    | answered => exact Advanced.quiet complete (fun _ _ => Command.noConfusion) published
    | lost => exact Advanced.quiet complete (fun _ _ => Command.noConfusion) published
    | failed => exact Advanced.silent complete known
  | dropSub published =>
    refine Advanced.silent complete ?_
    cases published with
    | true => exact known
    | false => exact kept_returned
  | forget =>
    by_cases executed : fate.executed = true
    · simp only [advanceKill, if_pos executed]
      refine ⟨fun other key standing => ?_, kept_returned⟩
      have earlier : Outstanding other key past :=
        (outstanding_quiet (fun _ _ => Command.noConfusion) (fun _ _ => Command.noConfusion)).mp
          standing
      have different : other ≠ sub := by
        rintro rfl
        obtain ⟨before, after, shape, account⟩ := known
        exact order executed rfl before after shape key ((account key earlier).resolve_left id)
      show key ∈ Function.update index sub [] other
      rw [Function.update_of_ne different]
      exact complete other key earlier
    · simp only [advanceKill, if_neg executed]
      exact Advanced.silent complete kept_returned

/-- **The logout.** -/
theorem advanceLogout_sound {index : Str → List Str} {fate : Fate} {stage : LogoutStage}
    (complete : ∀ sub key, Outstanding sub key past → key ∈ index sub)
    (known : Kept past task (.logout sub key stage))
    (order : fate.executed = true → stage = .forgetSession → ∀ before after,
      past = before ++ .deleted task [key] :: after → ¬ Outstanding sub key after) :
    Advanced past task (advanceLogout task index sub key fate stage) := by
  cases stage with
  | signOut =>
    refine Advanced.silent complete ?_
    cases fate with
    | answered => exact kept_logout
    | lost => exact kept_returned
    | failed => exact kept_returned
  | dropSessions =>
    have deleted :
        Accounted (.deleted task [key]) sub (· ≠ key) (past ++ [.deleted task [key]]) := by
      refine ⟨past, [], rfl, fun other standing => Or.inl ?_⟩
      rintro rfl
      rcases outstanding_concat.mp standing with same | ⟨_, kept⟩
      · cases same
      · exact kept ⟨task, [other], rfl, List.mem_singleton_self other⟩
    cases fate with
    | answered => exact Advanced.quiet complete (fun _ _ => Command.noConfusion) deleted
    | lost => exact Advanced.quiet complete (fun _ _ => Command.noConfusion) kept_returned
    | failed => exact Advanced.silent complete kept_returned
  | publishInvalidation =>
    have published := known.append [.published task sub]
    cases fate with
    | answered => exact Advanced.quiet complete (fun _ _ => Command.noConfusion) published
    | lost => exact Advanced.quiet complete (fun _ _ => Command.noConfusion) published
    | failed => exact Advanced.silent complete known
  | dropSub published =>
    refine Advanced.silent complete ?_
    cases published with
    | true => exact known
    | false => exact kept_returned
  | forgetSession =>
    by_cases executed : fate.executed = true
    · simp only [advanceLogout, if_pos executed]
      refine ⟨fun other another standing => ?_, kept_returned⟩
      have earlier : Outstanding other another past :=
        (outstanding_quiet (fun _ _ => Command.noConfusion) (fun _ _ => Command.noConfusion)).mp
          standing
      have member := complete other another earlier
      show another ∈ Function.update index sub _ other
      by_cases same : other = sub
      · subst same
        rw [Function.update_self, List.mem_filter]
        refine ⟨member, decide_eq_true ?_⟩
        rintro rfl
        obtain ⟨before, after, shape, account⟩ := known
        exact order executed rfl before after shape
          ((account another earlier).resolve_left fun different => different rfl)
      · rw [Function.update_of_ne same]
        exact member
    · simp only [advanceLogout, if_neg executed]
      exact Advanced.silent complete kept_returned

/-- **An index write.** -/
theorem sadd_sound {index : Str → List Str} {next : Task}
    (complete : ∀ sub key, Outstanding sub key past → key ∈ index sub)
    (kept : Kept (past ++ [.recorded sub key]) task next) :
    Advanced past task
      (Function.update index sub ((index sub).insert key), next, [.recorded sub key]) := by
  refine ⟨fun other another standing => ?_, kept⟩
  show another ∈ Function.update index sub _ other
  rcases outstanding_concat.mp standing with same | ⟨standing, _⟩
  · cases same
    rw [Function.update_self]
    exact List.mem_insert_self
  · have member := complete other another standing
    by_cases same : other = sub
    · subst same
      rw [Function.update_self]
      exact List.mem_insert_of_mem member
    · rw [Function.update_of_ne same]
      exact member

theorem advance_sound {fate : Fate} {effect : Effect} (sound : Sound past state)
    (order : InOrder (past, state) (.advance task fate))
    (advanced : advance task state.index fate (state.tasks task) = some effect) :
    Advanced past task effect := by
  have known := sound.kept task
  have orderly : fate.executed = true → Orderly past task (state.tasks task) := order
  cases current : state.tasks task with
  | idle =>
    rw [current] at advanced
    cases advanced
  | sadd sub key =>
    rw [current] at advanced
    cases fate with
    | answered =>
      cases advanced
      exact sadd_sound sound.complete trivial
    | lost =>
      cases advanced
      exact sadd_sound sound.complete trivial
    | failed =>
      cases advanced
      exact Advanced.silent sound.complete kept_returned
  | expire sub key =>
    rw [current] at advanced
    cases advanced
    exact Advanced.silent sound.complete kept_returned
  | kill sub stage =>
    rw [current] at advanced known orderly
    cases advanced
    refine advanceKill_sound sound.complete known fun executed last => ?_
    subst last
    exact orderly executed
  | logout sub key stage =>
    rw [current] at advanced known orderly
    cases advanced
    refine advanceLogout_sound sound.complete known fun executed last => ?_
    subst last
    exact orderly executed
  | returned =>
    rw [current] at advanced
    cases advanced

/-! ### A run -/

theorem sound_init : Sound [] .init :=
  ⟨fun _ _ standing => absurd standing Lib.not_standing_nil, fun _ => trivial⟩

theorem step_advance {fate : Fate} (stepped : step state (.advance task fate) = some (next, out)) :
    ∃ effect, advance task state.index fate (state.tasks task) = some effect ∧ out = effect.2.2 ∧
      next = ⟨effect.1, Function.update state.tasks task effect.2.1⟩ := by
  cases advanced : advance task state.index fate (state.tasks task) with
  | none =>
    simp only [step, advanced] at stepped
    cases stepped
  | some effect =>
    simp only [step, advanced] at stepped
    cases stepped
    exact ⟨effect, rfl, rfl, rfl⟩

theorem step_begin {job : Job} (stepped : step state (.begin task job) = some (next, out)) :
    out = [] ∧ next = { state with tasks := Function.update state.tasks task job.start } := by
  by_cases idle : state.tasks task = .idle
  · simp only [step, if_pos idle] at stepped
    cases stepped
    exact ⟨rfl, rfl⟩
  · simp only [step, if_neg idle] at stepped
    cases stepped

/-- **One step in order.** -/
theorem sound_step {label : Label} (sound : Sound past state) (order : InOrder (past, state) label)
    (stepped : step state label = some (next, out)) : Sound (past ++ out) next := by
  cases label with
  | begin task job =>
    obtain ⟨rfl, rfl⟩ := step_begin stepped
    rw [List.append_nil]
    refine ⟨sound.complete, fun other => ?_⟩
    show Kept past other (Function.update state.tasks task job.start other)
    by_cases same : other = task
    · subst same
      rw [Function.update_self]
      cases job <;> trivial
    · rw [Function.update_of_ne same]
      exact sound.kept other
  | advance task fate =>
    obtain ⟨effect, advanced, rfl, rfl⟩ := step_advance stepped
    obtain ⟨complete, kept⟩ := advance_sound sound order advanced
    refine ⟨complete, fun other => ?_⟩
    show Kept (past ++ effect.2.2) other (Function.update state.tasks task effect.2.1 other)
    by_cases same : other = task
    · subst same
      rw [Function.update_self]
      exact kept
    · rw [Function.update_of_ne same]
      exact (sound.kept other).append effect.2.2

/-- **One step out of order.** -/
theorem inOrder_of_complete {label : Label} (stepped : step state label = some (next, out))
    (complete : Complete (past ++ out) next) : InOrder (past, state) label := by
  cases label with
  | begin task job => trivial
  | advance task fate =>
    intro executed
    obtain ⟨effect, advanced, rfl, rfl⟩ := step_advance stepped
    unfold Orderly
    split
    · rename_i sub current
      rw [current] at advanced
      simp only [advance, advanceKill, if_pos executed] at advanced
      cases advanced
      intro before after shape key later
      have standing : Outstanding sub key (past ++ [.forgotten sub]) := by
        refine (outstanding_quiet (fun _ _ => Command.noConfusion)
          (fun _ _ => Command.noConfusion)).mpr ?_
        rw [shape, ← List.singleton_append, ← List.append_assoc]
        exact outstanding_of_suffix later
      have member := complete sub key standing
      rw [show (⟨Function.update state.index sub [], Function.update state.tasks task .returned⟩ :
        State).index sub = [] from Function.update_self ..] at member
      cases member
    · rename_i sub key current
      rw [current] at advanced
      simp only [advance, advanceLogout, if_pos executed] at advanced
      cases advanced
      intro before after shape later
      have standing : Outstanding sub key (past ++ [.removed sub key]) := by
        refine (outstanding_quiet (fun _ _ => Command.noConfusion)
          (fun _ _ => Command.noConfusion)).mpr ?_
        rw [shape, ← List.singleton_append, ← List.append_assoc]
        exact outstanding_of_suffix later
      have member := complete sub key standing
      rw [show (⟨Function.update state.index sub ((state.index sub).filter (· ≠ key)),
        Function.update state.tasks task .returned⟩ : State).index sub =
          (state.index sub).filter (· ≠ key) from Function.update_self ..] at member
      exact of_decide_eq_true (List.mem_filter.mp member).2 rfl
    · trivial

/-- **Every recorded session that has not been deleted since is a member, in every state that steps
in order lead to; and the next step keeps it so exactly when it is in order.** -/
theorem index_complete_iff {trace : List Command}
    (run : Run (logged step) InOrder ([], .init) trace (past, state)) :
    Complete past state ∧ ∀ label next out, step state label = some (next, out) →
      (Complete (past ++ out) next ↔ InOrder (past, state) label) := by
  have sound : Sound past state := by
    suffices kept : ∀ last, Run (logged step) InOrder ([], .init) trace last →
      Sound last.1 last.2 from
      kept (past, state) run
    intro last run
    refine @Run.invariant _ _ _ (logged step) InOrder ([], .init)
      (fun _ last => Sound last.1 last.2)
      sound_init ?_ _ _ run
    rintro _ ⟨past, state⟩ label next out sound order stepped
    obtain ⟨state', moved, rfl⟩ := Lib.logged_eq_some.mp stepped
    exact sound_step sound order moved
  refine ⟨sound.complete,
    fun label next out stepped => ⟨inOrder_of_complete stepped, fun order => ?_⟩⟩
  exact (sound_step sound order stepped).complete

end Tasks

/-! ### The sessions of one user -/

namespace Sessions

/-- The user. -/
def sub : Str := "u1".toList

/-- The session that the kill lists. -/
def known : Str := "_oauth2_proxy-a".toList

/-- The session that is indexed behind its `SMEMBERS`. -/
def fresh : Str := "_oauth2_proxy-b".toList

/-- One session more. -/
def third : Str := "_oauth2_proxy-c".toList

/-- A session indexed between a kill's `SMEMBERS` and its `DEL`; nothing fails. -/
def schedule : List Label :=
  [.begin 0 (.record sub known), .advance 0 .answered, .advance 0 .answered,
    .begin 1 (.kill sub), .advance 1 .answered, .advance 1 .answered,
    .begin 2 (.record sub fresh), .advance 2 .answered, .advance 2 .answered,
    .advance 1 .answered, .advance 1 .answered, .advance 1 .answered, .advance 1 .answered]

/-- The kill of one session, up to its deletion of the index entry. -/
def killing : List Label :=
  [.begin 0 (.record sub known), .advance 0 .answered, .advance 0 .answered,
    .begin 1 (.kill sub), .advance 1 .answered, .advance 1 .answered, .advance 1 .answered,
    .advance 1 .answered, .advance 1 .answered]

/-- Two sessions more, and the logout of the first of them up to its `SREM`. -/
def leaving : List Label :=
  [.begin 2 (.record sub fresh), .advance 2 .answered, .advance 2 .answered,
    .begin 3 (.record sub third), .advance 3 .answered, .advance 3 .answered,
    .begin 4 (.logout sub fresh), .advance 4 .answered, .advance 4 .answered, .advance 4 .answered,
    .advance 4 .answered]

/-- What has happened when the kill comes to the index entry. -/
def killed : List Command :=
  [.recorded sub known, .listed 1 sub, .deleted 1 [known], .published 1 sub]

/-- What has happened when the logout comes to its `SREM`. -/
def left : List Command :=
  killed ++ [.forgotten sub, .recorded sub fresh, .recorded sub third, .deleted 4 [fresh],
    .published 4 sub]

/-- The next command of the task takes no members away. -/
def takesNone : Task → Bool
  | .kill _ .forget => false
  | .logout _ _ .forgetSession => false
  | _ => true

/-- Nor does this step. -/
def Harmless : List Command × State → Label → Prop
  | _, .begin _ _ => True
  | (_, state), .advance task _ => takesNone (state.tasks task) = true

instance (state : List Command × State) : (label : Label) → Decidable (Harmless state label)
  | .begin _ _ => .isTrue trivial
  | .advance task _ => inferInstanceAs (Decidable (takesNone (state.2.tasks task) = true))

theorem inOrder_of_harmless {state : List Command × State} {label : Label}
    (harmless : Harmless state label) : InOrder state label := by
  obtain ⟨past, state⟩ := state
  cases label with
  | begin task job => trivial
  | advance task fate =>
    intro _
    have none : takesNone (state.tasks task) = true := harmless
    unfold Orderly
    split
    · rename_i current
      rw [current] at none
      cases none
    · rename_i current
      rw [current] at none
      cases none
    · trivial

theorem run_of_harmless {labels : List Label} {start last : List Command × State}
    {trace : List Command}
    (done : exec (guarded (logged step) Harmless) start labels = some (last, trace)) :
    Run (logged step) InOrder start trace last :=
  (Run.of_exec_guarded done).mono fun _ _ => inOrder_of_harmless

/-- What has not been recorded is not owed. -/
theorem not_outstanding {sub key : Str} {past : List Command} (none : .recorded sub key ∉ past) :
    ¬ Outstanding sub key past := by
  rintro ⟨before, event, after, rfl, rfl, _⟩
  exact none (List.mem_append_right _ List.mem_cons_self)

/-- No session is recorded between the kill's `SMEMBERS` and its last command. -/
theorem orderly_killed : Orderly killed 1 (.kill sub .forget) := by
  intro before after shape key
  have parts : [.recorded sub known] ++ .listed 1 sub ::
      [.deleted 1 [known], .published 1 sub] = before ++ .listed 1 sub :: after := shape
  rw [List.append_cons_inj_of_notMem (by simp) (by simp)] at parts
  obtain ⟨_, _, rfl⟩ := parts
  exact not_outstanding (by simp)

/-- The session that logs out is not recorded behind its deletion. -/
theorem orderly_left : Orderly left 4 (.logout sub fresh .forgetSession) := by
  intro before after shape
  have parts : killed ++ [.forgotten sub, .recorded sub fresh, .recorded sub third] ++
      .deleted 4 [fresh] :: [.published 4 sub] = before ++ .deleted 4 [fresh] :: after := shape
  rw [List.append_cons_inj_of_notMem (by simp [killed]) (by simp)] at parts
  obtain ⟨_, _, rfl⟩ := parts
  exact not_outstanding (by simp)

/-- The two removals and all that leads to them. -/
theorem removed :
    ((exec (guarded (logged step) Harmless) ([], .init) killing).any fun (middle, _) =>
      middle.1 = killed && middle.2.tasks 1 = .kill sub .forget &&
      (logged step middle (.advance 1 .answered)).any fun (next, _) =>
        (exec (guarded (logged step) Harmless) next leaving).any fun (later, _) =>
          later.1 = left && later.2.tasks 4 = .logout sub fresh .forgetSession &&
          (logged step later (.advance 4 .answered)).any fun (last, _) =>
            last.1 = left ++ [.removed sub fresh] && last.2.index sub = [third]) = true := by
  decide +kernel

end Sessions

open Sessions in
/-- A kill deletes and forgets, two more sessions are recorded and the first of them logs out: the
other is a member, and stays one under steps in order. -/
theorem index_complete_left :
    ∃ state, state.index sub = [third] ∧ Complete (left ++ [.removed sub fresh]) state ∧
      ∀ label next out, step state label = some (next, out) →
        (Complete (left ++ [.removed sub fresh] ++ out) next ↔
          InOrder (left ++ [.removed sub fresh], state) label) := by
  obtain ⟨⟨⟨past, middle⟩, _⟩, first, shown⟩ := (Option.any_eq_true _ _).mp removed
  simp only [Bool.and_eq_true, decide_eq_true_iff] at shown
  obtain ⟨⟨rfl, killing⟩, shown⟩ := shown
  obtain ⟨⟨next, _⟩, forgets, shown⟩ := (Option.any_eq_true _ _).mp shown
  obtain ⟨⟨⟨past, later⟩, _⟩, second, shown⟩ := (Option.any_eq_true _ _).mp shown
  simp only [Bool.and_eq_true, decide_eq_true_iff] at shown
  obtain ⟨⟨rfl, leaving⟩, shown⟩ := shown
  obtain ⟨⟨⟨past, last⟩, _⟩, removes, shown⟩ := (Option.any_eq_true _ _).mp shown
  simp only [Bool.and_eq_true, decide_eq_true_iff] at shown
  obtain ⟨rfl, members⟩ := shown
  have kill : InOrder (killed, middle) (.advance 1 .answered) := by
    intro _
    rw [killing]
    exact orderly_killed
  have logout : InOrder (left, later) (.advance 4 .answered) := by
    intro _
    rw [leaving]
    exact orderly_left
  have run := (run_of_harmless first).next kill forgets
  exact ⟨last, members,
    index_complete_iff ((run.trans (run_of_harmless second)).next logout removes)⟩

open Sessions in
/-- **A session indexed while a kill is between its `SMEMBERS` and its `DEL` is lost to the
index.** -/
theorem index_loses :
    ∃ trace past state, Run (logged step) (fun _ _ => True) ([], .init) trace (past, state) ∧
      past = [.recorded sub known, .listed 1 sub, .recorded sub fresh, .deleted 1 [known],
        .published 1 sub, .forgotten sub] ∧ ¬ Complete past state := by
  have done : exec (logged step) ([], .init) schedule = some ((_, _), _) := rfl
  refine ⟨_, _, _, Run.of_exec (fun _ _ _ => trivial) done, rfl, ?_⟩
  intro complete
  have standing : Outstanding sub fresh ([.recorded sub known, .listed 1 sub] ++
      .recorded sub fresh :: [.deleted 1 [known], .published 1 sub, .forgotten sub]) := by
    refine ⟨_, _, _, rfl, rfl, ?_⟩
    rintro later member ⟨task, keys, rfl, inside⟩
    rcases List.mem_cons.mp member with same | member
    · cases same
      exact absurd inside (by decide +kernel)
    · simp at member
  exact absurd (complete sub fresh standing) (by decide +kernel)

end OpenBerat.Index
