/-
**Installing a staged file.**

The loop beside nginx takes what the backend has staged: it backs the live file up, moves the staged
one over it, has `nginx -t` test the whole configuration, and puts the backup back where the test
fails. The backend renames onto the staged name at any time, nginx reads its configuration when it
starts and some time after each reload, and the container can be killed between any two commands;
the files stay.

* `install_holds`: one command of a pass.
* `live_accepted`: as long as nothing happens between the move of `apps.conf` and the end of its
  test, nginx reads accepted files only; after each pass of a run without a kill the live file is
  the last accepted one.
* `killed_untested`: a kill there, and nginx starts with a file the test has never seen.
-/

import OpenBerat.Lib.History
import OpenBerat.Lib.Run
import OpenBerat.Text

namespace OpenBerat.Nginx.Reload

open Lib (Everywhere Run exec)

/-! ### The files -/

/-- `apps.conf` and `breakglass.apps`. -/
inductive Live
  | apps
  | breakglass
  deriving DecidableEq

/-- The status file: `ok`, or what `nginx -t` has printed. -/
inductive Status
  | ok (date : Str)
  | invalid (date error : Str)
  deriving DecidableEq

/-- The live file and its companions on the volume. -/
structure Files where
  staged : Option Str
  live : Option Str
  bak : Option Str
  status : Option Status
  deriving DecidableEq

/-! ### `install_staged` -/

/-- The command a pass is at. -/
inductive Place
  /-- `[ -f live.staged ]` -/
  | check
  /-- `[ -f live ] && cp live live.bak`, up to the opening of the copy -/
  | backup
  /-- the copy, with what is still to be written -/
  | copying (rest : Str)
  /-- `mv live.staged live` -/
  | move
  /-- `nginx -t -c target` -/
  | test
  /-- `nginx -s reload` -/
  | reload
  /-- `mv live.bak live`, or `rm -f live` -/
  | restore (error : Str)
  /-- the status file -/
  | report (error : Option Str)
  /-- `rm -f live.bak` -/
  | clean
  deriving DecidableEq

/-- What a run shows: a file is accepted, a pass is over, nginx has read, the container was
killed. -/
inductive Event
  | accepted (live : Live) (text : Str)
  | passed (live : Live) (text : Option Str)
  | read (text : Option Str)
  | killed
  deriving DecidableEq

/-- What one command leaves: the files, the next command unless the pass is over, and whether
`nginx -t` has accepted or nginx been told to reload. -/
structure Ran where
  files : Files
  place : Option Place
  accepted : Option Str
  signal : Bool

/-- The next command of a pass. `printed` is what `date` or `nginx -t` prints. -/
def install (nginxT : Str → Bool) (reload : Bool) (printed : Str) (files : Files) : Place →
    Option Ran
  | .check =>
    match files.staged with
    | none => some ⟨files, none, none, false⟩
    | some _ => some ⟨files, some .backup, none, false⟩
  | .backup =>
    match files.live with
    | none => some ⟨files, some .move, none, false⟩
    | some text => some ⟨{ files with bak := some [] }, some (.copying text), none, false⟩
  | .copying [] => some ⟨files, some .move, none, false⟩
  | .copying _ => none
  | .move =>
    match files.staged with
    | none => some ⟨files, some .test, none, false⟩
    | some text => some ⟨{ files with staged := none, live := some text }, some .test, none, false⟩
  | .test =>
    if files.live.all nginxT then some ⟨files, some .reload, files.live, false⟩
    else some ⟨files, some (.restore printed), none, false⟩
  | .reload => some ⟨files, some (.report none), none, reload⟩
  | .restore error =>
    match files.bak with
    | none => some ⟨{ files with live := none }, some (.report (some error)), none, false⟩
    | some text =>
      some ⟨{ files with bak := none, live := some text }, some (.report (some error)), none, false⟩
  | .report none => some ⟨{ files with status := some (.ok printed) }, some .clean, none, false⟩
  | .report (some error) =>
    some ⟨{ files with status := some (.invalid printed error) }, some .clean, none, false⟩
  | .clean => some ⟨{ files with bak := none }, none, none, false⟩

/-! ### The container -/

/-- The volume, the loop and nginx. -/
structure State where
  files : Live → Files
  /-- The file this pass of `reload_loop` is about, and where the pass is. -/
  current : Live
  place : Place
  /-- nginx has yet to read its configuration. -/
  due : Bool

/-- The first start, on an empty volume. -/
def State.init : State :=
  ⟨fun _ => ⟨none, none, none, none⟩, .apps, .check, true⟩

/-- The files under one live name have changed. -/
def State.put (state : State) (live : Live) (files : Files) : State :=
  { state with files := Function.update state.files live files }

/-- The loop goes on with the other file. -/
def Live.next : Live → Live
  | .apps => .breakglass
  | .breakglass => .apps

/-- The backend renames, the loop goes on, nginx reads, or the container is killed. -/
inductive Label
  /-- The backend's `stage`. -/
  | rename (live : Live) (text : Str)
  | command (printed : Str)
  /-- `cp` writes some more. -/
  | write (count : Nat)
  | read
  | kill
  deriving DecidableEq

section Machine

variable (nginxT : Live → Str → Bool)

/-- One step, and what it shows. -/
def step (state : State) : Label → Option (State × List Event)
  | .rename live text =>
    some (state.put live { state.files live with staged := some text }, [])
  | .command printed =>
    match install (nginxT state.current) (state.current = .apps) printed
        (state.files state.current) state.place with
    | none => none
    | some ran =>
      let next := { state.put state.current ran.files with due := state.due || ran.signal }
      let tested := ran.accepted.toList.map (Event.accepted state.current)
      match ran.place with
      | some place => some ({ next with place := place }, tested)
      | none => some ({ next with current := state.current.next, place := .check },
          tested ++ [.passed state.current ran.files.live])
  | .write count =>
    match state.place with
    | .copying rest =>
      let files := state.files state.current
      let next := state.put state.current { files with bak := files.bak.map (· ++ rest.take count) }
      some ({ next with place := .copying (rest.drop count) }, [])
    | _ => none
  | .read =>
    if state.due then some ({ state with due := false }, [.read (state.files .apps).live]) else none
  | .kill => some ({ state with current := .apps, place := .check, due := true }, [.killed])

end Machine

/-! ### What has been accepted -/

/-- The text that an event has accepted under this name. -/
def acceptedAs (live : Live) : Event → Option Str
  | .accepted other text => if other = live then some text else none
  | _ => none

/-- The last text `nginx -t` has accepted under this name. -/
def latest (live : Live) (past : List Event) : Option Str :=
  (past.filterMap (acceptedAs live)).getLast?

theorem mem_of_latest {live : Live} {past : List Event} {text : Str}
    (last : latest live past = some text) : .accepted live text ∈ past := by
  obtain ⟨event, member, named⟩ := List.mem_filterMap.mp (List.mem_of_getLast? last)
  unfold acceptedAs at named
  split at named
  · rename_i other said
    by_cases same : other = live
    · rw [if_pos same] at named
      cases named
      exact same ▸ member
    · rw [if_neg same] at named
      cases named
  · cases named

theorem latest_append {live : Live} {past out : List Event} :
    latest live (past ++ out) =
      ((out.filterMap (acceptedAs live)).getLast?).or (latest live past) := by
  unfold latest
  rw [List.filterMap_append, List.getLast?_append]

/-! ### One command -/

/-- The live file is the last accepted one, and a backup has a live file beside it. -/
def Settled (last : Option Str) (files : Files) : Prop :=
  files.live = last ∧ (files.bak.isSome = true → files.live.isSome = true)

/-- What holds of the files at each command of a pass. -/
def Holds (last : Option Str) (files : Files) : Place → Prop
  | .backup => Settled last files ∧ files.staged.isSome = true
  | .copying rest => (files.live = last ∧ files.staged.isSome = true) ∧
    ∃ done, files.bak = some done ∧ files.live = some (done ++ rest)
  | .move => (files.live = last ∧ files.staged.isSome = true) ∧ files.bak = last
  | .test => files.live.isSome = true ∧ files.bak = last
  | .restore _ => files.bak = last
  | _ => Settled last files

/-- Between the move and the end of the test. -/
def Place.untested : Place → Bool
  | .test => true
  | .restore _ => true
  | _ => false

theorem settled_of_holds {last : Option Str} {files : Files} {place : Place}
    (holds : Holds last files place) (tested : place.untested = false) : Settled last files := by
  cases place with
  | check => exact holds
  | backup => exact holds.1
  | copying rest =>
    obtain ⟨⟨live, _⟩, done, _, shown⟩ := holds
    exact ⟨live, fun _ => by rw [shown]; rfl⟩
  | move =>
    obtain ⟨⟨live, _⟩, bak⟩ := holds
    exact ⟨live, fun present => by rwa [live, ← bak]⟩
  | test => cases tested
  | reload => exact holds
  | restore error => cases tested
  | report error => exact holds
  | clean => exact holds

/-- **One command of a pass.** -/
theorem install_holds {nginxT : Str → Bool} {reload : Bool} {printed : Str} {last : Option Str}
    {files : Files} {place : Place} {ran : Ran} (holds : Holds last files place)
    (done : install nginxT reload printed files place = some ran) :
    Holds (ran.accepted.or last) ran.files (ran.place.getD .check) := by
  cases place with
  | check =>
    cases staged : files.staged with
    | none =>
      simp only [install, staged] at done
      cases done
      exact holds
    | some text =>
      simp only [install, staged] at done
      cases done
      exact ⟨holds, by rw [staged]; rfl⟩
  | backup =>
    obtain ⟨⟨live, beside⟩, staged⟩ := holds
    cases present : files.live with
    | none =>
      simp only [install, present] at done
      cases done
      have bare : files.bak = none := by
        rw [present] at beside
        exact Option.not_isSome_iff_eq_none.mp fun some => Bool.false_ne_true (beside some)
      refine ⟨⟨live, staged⟩, ?_⟩
      show files.bak = last
      rw [bare, ← live, present]
    | some text =>
      simp only [install, present] at done
      cases done
      exact ⟨⟨present.symm.trans live, staged⟩, [], rfl, rfl⟩
  | copying rest =>
    cases rest with
    | nil =>
      cases done
      obtain ⟨same, written, bak, shown⟩ := holds
      refine ⟨same, ?_⟩
      show files.bak = last
      rw [bak, ← same.1, shown, List.append_nil]
    | cons char rest => cases done
  | move =>
    obtain ⟨⟨live, staged⟩, bak⟩ := holds
    obtain ⟨text, shown⟩ := Option.isSome_iff_exists.mp staged
    simp only [install, shown] at done
    cases done
    exact ⟨rfl, bak⟩
  | test =>
    obtain ⟨present, bak⟩ := holds
    obtain ⟨text, shown⟩ := Option.isSome_iff_exists.mp present
    by_cases valid : files.live.all nginxT = true
    · simp only [install, if_pos valid] at done
      cases done
      refine ⟨?_, fun _ => present⟩
      show files.live = files.live.or last
      rw [shown, Option.some_or]
    · simp only [install, if_neg valid] at done
      cases done
      exact bak
  | reload =>
    cases done
    exact holds
  | restore error =>
    cases present : files.bak with
    | none =>
      simp only [install, present] at done
      cases done
      exact ⟨present.symm.trans holds, fun some => absurd some Bool.false_ne_true⟩
    | some text =>
      simp only [install, present] at done
      cases done
      exact ⟨present.symm.trans holds, fun some => absurd some Bool.false_ne_true⟩
  | report error =>
    cases error with
    | none =>
      cases done
      exact holds
    | some error =>
      cases done
      exact holds
  | clean =>
    cases done
    exact ⟨holds.1, fun some => absurd some Bool.false_ne_true⟩

/-! ### A run -/

variable {nginxT : Live → Str → Bool} {past : List Event} {state next : State} {out : List Event}

/-- What holds of one of the files, be this pass about it or about the other. -/
structure Sound (live : Live) (past : List Event) (state : State) : Prop where
  current : state.current = live → Holds (latest live past) (state.files live) state.place
  other : state.current ≠ live → Settled (latest live past) (state.files live)

/-- No kill between this file's move and the end of its test. -/
def KillsSettled (live : Live) (state : State) (label : Label) : Prop :=
  label = .kill → state.current = live → state.place.untested = false

/-- Neither a kill nor a reading between the move of `apps.conf` and the end of its test. -/
def Careful (state : State) (label : Label) : Prop :=
  label = .kill ∨ label = .read → state.current = .apps → state.place.untested = false

instance (live : Live) (state : State) (label : Label) :
    Decidable (KillsSettled live state label) :=
  inferInstanceAs (Decidable (_ → _))

instance (state : State) (label : Label) : Decidable (Careful state label) :=
  inferInstanceAs (Decidable (_ → _))

theorem Sound.of_settled {live : Live} (settled : Settled (latest live past) (state.files live))
    (fresh : state.place = .check) : Sound live past state :=
  ⟨fun _ => by rw [fresh]; exact settled, fun _ => settled⟩

theorem sound_init (live : Live) : Sound live [] .init :=
  .of_settled ⟨rfl, fun some => absurd some Bool.false_ne_true⟩ rfl

theorem Sound.settled {live : Live} (sound : Sound live past state)
    (tested : state.current = live → state.place.untested = false) :
    Settled (latest live past) (state.files live) := by
  by_cases same : state.current = live
  · exact settled_of_holds (sound.current same) (tested same)
  · exact sound.other same

/-- A file staged matters to no command behind the check. -/
theorem holds_staged {last : Option Str} {files : Files} {place : Place}
    (holds : Holds last files place) (text : Str) :
    Holds last { files with staged := some text } place := by
  cases place with
  | check => exact holds
  | backup => exact ⟨holds.1, rfl⟩
  | copying rest => exact ⟨⟨holds.1.1, rfl⟩, holds.2⟩
  | move => exact ⟨⟨holds.1.1, rfl⟩, holds.2⟩
  | test => exact holds
  | reload => exact holds
  | restore error => exact holds
  | report error => exact holds
  | clean => exact holds

theorem sound_rename {live renamed : Live} {text : Str} (sound : Sound live past state) :
    Sound live past
      (state.put renamed { state.files renamed with staged := some text }) := by
  by_cases same : live = renamed
  · subst same
    have here : (state.put live { state.files live with staged := some text }).files live =
        { state.files live with staged := some text } :=
      Function.update_self ..
    refine ⟨fun current => ?_, fun other => ?_⟩
    · rw [here]
      exact holds_staged (sound.current current) text
    · rw [here]
      exact sound.other other
  · have there : (state.put renamed { state.files renamed with staged := some text }).files live =
        state.files live :=
      Function.update_of_ne same ..
    refine ⟨fun current => ?_, fun other => ?_⟩
    · rw [there]
      exact sound.current current
    · rw [there]
      exact sound.other other

theorem latest_accepted {live other : Live} {accepted : Option Str} :
    latest live (past ++ accepted.toList.map (Event.accepted other)) =
      if other = live then accepted.or (latest live past) else latest live past := by
  cases accepted with
  | none =>
    rw [Option.toList_none, List.map_nil, List.append_nil, Option.none_or, ite_self]
  | some text =>
    rw [latest_append]
    by_cases same : other = live
    · rw [if_pos same]
      simp [acceptedAs, same]
    · rw [if_neg same]
      simp [acceptedAs, same]

theorem latest_passed {live other : Live} {text : Option Str} :
    latest live (past ++ [.passed other text]) = latest live past := by
  rw [latest_append]
  rfl

theorem step_command {printed : Str}
    (stepped : step nginxT state (.command printed) = some (next, out)) :
    ∃ ran, install (nginxT state.current) (state.current = .apps) printed
        (state.files state.current) state.place = some ran ∧
      ((∃ place, ran.place = some place ∧
          out = ran.accepted.toList.map (Event.accepted state.current) ∧
          next = { state.put state.current ran.files with
            due := state.due || ran.signal, place := place }) ∨
        ran.place = none ∧ out = ran.accepted.toList.map (Event.accepted state.current) ++
            [.passed state.current ran.files.live] ∧
          next = { state.put state.current ran.files with
            due := state.due || ran.signal, current := state.current.next, place := .check }) := by
  cases done : install (nginxT state.current) (state.current = .apps) printed
      (state.files state.current) state.place with
  | none =>
    simp only [step, done] at stepped
    cases stepped
  | some ran =>
    refine ⟨ran, rfl, ?_⟩
    cases going : ran.place with
    | none =>
      simp only [step, done, going] at stepped
      cases stepped
      exact Or.inr ⟨rfl, rfl, rfl⟩
    | some place =>
      simp only [step, done, going] at stepped
      cases stepped
      exact Or.inl ⟨place, rfl, rfl, rfl⟩

theorem step_write {count : Nat} (stepped : step nginxT state (.write count) = some (next, out)) :
    ∃ rest, state.place = .copying rest ∧ out = [] ∧
      next = let files := state.files state.current
        { state.put state.current { files with bak := files.bak.map (· ++ rest.take count) } with
          place := .copying (rest.drop count) } := by
  cases current : state.place with
  | copying rest =>
    simp only [step, current] at stepped
    cases stepped
    exact ⟨rest, rfl, rfl, rfl⟩
  | _ =>
    simp only [step, current] at stepped
    cases stepped

/-- One command of a pass that goes on, or has come to its end. -/
theorem sound_ran {live : Live} {printed : Str} {ran : Ran} (sound : Sound live past state)
    (done : install (nginxT state.current) (state.current = .apps) printed
      (state.files state.current) state.place = some ran) :
    (state.current = live → Holds (latest live
        (past ++ ran.accepted.toList.map (Event.accepted state.current))) ran.files
        (ran.place.getD .check)) ∧
      (state.current ≠ live → Settled (latest live
        (past ++ ran.accepted.toList.map (Event.accepted state.current))) (state.files live)) := by
  constructor
  · intro same
    subst same
    rw [latest_accepted, if_pos rfl]
    exact install_holds (sound.current rfl) done
  · intro different
    rw [latest_accepted, if_neg different]
    exact sound.other different

theorem sound_command {live : Live} {printed : Str} (sound : Sound live past state)
    (stepped : step nginxT state (.command printed) = some (next, out)) :
    Sound live (past ++ out) next := by
  obtain ⟨ran, done, outcome⟩ := step_command stepped
  obtain ⟨holds, settled⟩ := sound_ran sound done
  have here : state.current = live →
      (state.put state.current ran.files).files live = ran.files := by
    intro same
    rw [same]
    exact Function.update_self ..
  have there : state.current ≠ live →
      (state.put state.current ran.files).files live = state.files live :=
    fun different => Function.update_of_ne different.symm ..
  rcases outcome with ⟨place, going, rfl, rfl⟩ | ⟨ended, rfl, rfl⟩
  · refine ⟨fun same => ?_, fun different => ?_⟩
    · show Holds _ ((state.put state.current ran.files).files live) place
      have goes := holds same
      rw [going] at goes
      rwa [here same]
    · show Settled _ ((state.put state.current ran.files).files live)
      rw [there different]
      exact settled different
  · rw [← List.append_assoc]
    refine .of_settled ?_ rfl
    rw [latest_passed]
    show Settled _ ((state.put state.current ran.files).files live)
    by_cases same : state.current = live
    · have through := holds same
      rw [ended] at through
      rwa [here same]
    · rw [there same]
      exact settled same

theorem sound_write {live : Live} {count : Nat} (sound : Sound live past state)
    (stepped : step nginxT state (.write count) = some (next, out)) :
    Sound live (past ++ out) next := by
  obtain ⟨rest, copying, rfl, rfl⟩ := step_write stepped
  rw [List.append_nil]
  refine ⟨fun same => ?_, fun different => ?_⟩
  · have current : state.current = live := same
    subst current
    have holds := sound.current rfl
    rw [copying] at holds
    obtain ⟨same, done, bak, shown⟩ := holds
    show Holds _ (Function.update state.files state.current _ state.current)
      (.copying (rest.drop count))
    rw [Function.update_self]
    refine ⟨same, done ++ rest.take count, ?_, ?_⟩
    · show (state.files state.current).bak.map (· ++ rest.take count) = _
      rw [bak]
      rfl
    · rw [List.append_assoc, List.take_append_drop]
      exact shown
  · have elsewhere : state.current ≠ live := different
    show Settled _ (Function.update state.files state.current _ live)
    rw [Function.update_of_ne elsewhere.symm]
    exact sound.other elsewhere

theorem step_read (stepped : step nginxT state .read = some (next, out)) :
    next = { state with due := false } ∧ out = [.read (state.files .apps).live] := by
  by_cases due : state.due = true
  · simp only [step, if_pos due] at stepped
    cases stepped
    exact ⟨rfl, rfl⟩
  · simp only [step, if_neg due] at stepped
    cases stepped

/-- Events that are no acceptance. -/
theorem Sound.of_latest {live : Live} {event : Event} (sound : Sound live past state)
    (same : latest live (past ++ [event]) = latest live past) :
    Sound live (past ++ [event]) state := by
  refine ⟨fun current => ?_, fun other => ?_⟩
  · rw [same]
    exact sound.current current
  · rw [same]
    exact sound.other other

/-- **One step.** -/
theorem sound_step {live : Live} {label : Label} (sound : Sound live past state)
    (settled : KillsSettled live state label)
    (stepped : step nginxT state label = some (next, out)) : Sound live (past ++ out) next := by
  cases label with
  | rename renamed text =>
    cases stepped
    rw [List.append_nil]
    exact sound_rename sound
  | command printed => exact sound_command sound stepped
  | write count => exact sound_write sound stepped
  | read =>
    obtain ⟨rfl, rfl⟩ := step_read stepped
    have also : Sound live past { state with due := false } := ⟨sound.current, sound.other⟩
    exact also.of_latest latest_append
  | kill =>
    cases stepped
    have also : Sound live past { state with current := .apps, place := .check, due := true } :=
      .of_settled (sound.settled (settled rfl)) rfl
    exact also.of_latest latest_append

/-- The live file after a pass about it is the last accepted one. -/
def PassKeeps (live : Live) (past : List Event) (event : Event) : Prop :=
  ∀ text, event = .passed live text → text = latest live past

/-- nginx finds no live `apps.conf`, or an accepted one. -/
def ReadsAccepted (past : List Event) (event : Event) : Prop :=
  ∀ text, event = .read (some text) → .accepted .apps text ∈ past

theorem pass_step {live : Live} {label : Label} (sound : Sound live past state)
    (kept : Everywhere (PassKeeps live) past)
    (stepped : step nginxT state label = some (next, out)) :
    Everywhere (PassKeeps live) (past ++ out) := by
  cases label with
  | rename renamed text =>
    cases stepped
    rwa [List.append_nil]
  | command printed =>
    obtain ⟨ran, done, outcome⟩ := step_command stepped
    have tested : Everywhere (PassKeeps live)
        (past ++ ran.accepted.toList.map (Event.accepted state.current)) := by
      refine Lib.everywhere_append kept fun event member before text same => ?_
      obtain ⟨_, _, rfl⟩ := List.mem_map.mp member
      cases same
    rcases outcome with ⟨_, _, rfl, _⟩ | ⟨ended, rfl, _⟩
    · exact tested
    · rw [← List.append_assoc, Lib.everywhere_concat]
      refine ⟨tested, fun text same => ?_⟩
      obtain ⟨about, rfl⟩ := Event.passed.inj same
      have holds := (sound_ran sound done).1 about
      rw [ended] at holds
      exact holds.1
  | write count =>
    obtain ⟨_, _, rfl, _⟩ := step_write stepped
    rwa [List.append_nil]
  | read =>
    obtain ⟨_, rfl⟩ := step_read stepped
    exact Lib.everywhere_concat.mpr ⟨kept, fun _ same => nomatch same⟩
  | kill =>
    cases stepped
    exact Lib.everywhere_concat.mpr ⟨kept, fun _ same => nomatch same⟩

theorem read_step {label : Label} (sound : Sound .apps past state) (careful : Careful state label)
    (kept : Everywhere ReadsAccepted past) (stepped : step nginxT state label = some (next, out)) :
    Everywhere ReadsAccepted (past ++ out) := by
  cases label with
  | rename live text =>
    cases stepped
    rwa [List.append_nil]
  | command printed =>
    obtain ⟨ran, _, outcome⟩ := step_command stepped
    refine Lib.everywhere_append kept fun event member before text same => ?_
    subst same
    rcases outcome with ⟨_, _, rfl, _⟩ | ⟨_, rfl, _⟩
    · obtain ⟨_, _, same⟩ := List.mem_map.mp member
      cases same
    · rcases List.mem_append.mp member with member | member
      · obtain ⟨_, _, same⟩ := List.mem_map.mp member
        cases same
      · cases List.mem_singleton.mp member
  | write count =>
    obtain ⟨_, _, rfl, _⟩ := step_write stepped
    rwa [List.append_nil]
  | read =>
    obtain ⟨_, rfl⟩ := step_read stepped
    refine Lib.everywhere_concat.mpr ⟨kept, fun text same => ?_⟩
    have live := (sound.settled (careful (Or.inr rfl))).1
    rw [Event.read.inj same] at live
    exact mem_of_latest live.symm
  | kill =>
    cases stepped
    exact Lib.everywhere_concat.mpr ⟨kept, fun _ same => nomatch same⟩

theorem reads_accepted {trace : List Event} (run : Run (step nginxT) Careful .init trace state) :
    Sound .apps trace state ∧ Everywhere ReadsAccepted trace := by
  refine @Run.invariant _ _ _ (step nginxT) Careful .init
    (fun past state => Sound .apps past state ∧ Everywhere ReadsAccepted past)
    ⟨sound_init .apps, Lib.everywhere_nil _⟩ ?_ _ _ run
  rintro past state label next out ⟨sound, read⟩ careful stepped
  exact ⟨sound_step sound (fun same => careful (Or.inl same)) stepped,
    read_step sound careful read stepped⟩

theorem passes_keep {live : Live} {trace : List Event}
    (run : Run (step nginxT) (KillsSettled live) .init trace state) :
    Sound live trace state ∧ Everywhere (PassKeeps live) trace := by
  refine @Run.invariant _ _ _ (step nginxT) (KillsSettled live) .init
    (fun past state => Sound live past state ∧ Everywhere (PassKeeps live) past)
    ⟨sound_init live, Lib.everywhere_nil _⟩ ?_ _ _ run
  rintro past state label next out ⟨sound, kept⟩ settled stepped
  exact ⟨sound_step sound settled stepped, pass_step sound kept stepped⟩

/-- **As long as neither a kill nor a reading comes between the move of `apps.conf` and the end of
its test**, nginx reads nothing that has not been accepted. A pass leaves the last accepted file
wherever no kill comes between that file's move and the end of its test, so in every run without a
kill. -/
theorem live_accepted (nginxT : Live → Str → Bool) :
    (∀ trace state, Run (step nginxT) Careful .init trace state → Everywhere ReadsAccepted trace) ∧
    (∀ live trace state, Run (step nginxT) (KillsSettled live) .init trace state →
      Everywhere (PassKeeps live) trace) ∧
    ∀ trace state, Run (step nginxT) (fun _ label => label ≠ .kill) .init trace state →
      ∀ live, Everywhere (PassKeeps live) trace :=
  ⟨fun _ _ run => (reads_accepted run).2, fun _ _ _ run => (passes_keep run).2,
    fun _ _ run _ => (passes_keep (run.mono fun _ _ alive killed => absurd killed alive)).2⟩

/-! ### Two files -/

namespace Volume

/-- A file that is closed. -/
def good : Str := "server \x7b \x7d".toList

/-- A file that is not. -/
def broken : Str := "server \x7b".toList

/-- A file that is not closed is refused. -/
def closed (_ : Live) (text : Str) : Bool :=
  endsWith ['\x7d'] text

/-- So many commands of the loop. -/
def commands (count : Nat) : List Label :=
  List.replicate count (.command "".toList)

/-- Both files are staged and `apps.conf` is installed, up to the test of `breakglass.apps`. -/
def opening : List Label :=
  .rename .apps good :: .rename .breakglass good :: commands 10

/-- A broken `apps.conf` is staged and put back. -/
def closing : List Label :=
  .rename .apps broken :: commands 2 ++ .write 10 :: commands 6

/-- nginx reads while `breakglass.apps` is tested. -/
def schedule : List Label :=
  opening ++ .read :: commands 4 ++ closing

/-- Both files are accepted, and the broken one leaves no trace. -/
def trace : List Event :=
  [.accepted .apps good, .passed .apps (some good), .read (some good), .accepted .breakglass good,
    .passed .breakglass (some good), .passed .apps (some good)]

/-- The container is killed where the other one goes on. -/
def restart : List Label :=
  opening ++ .kill :: .read :: closing

/-- nginx starts with the accepted `apps.conf`. -/
def restarted : List Event :=
  [.accepted .apps good, .passed .apps (some good), .killed, .read (some good),
    .passed .apps (some good)]

end Volume

open Volume in
/-- nginx reads while `breakglass.apps` is tested, and the broken file is gone after its own pass;
with a kill instead, nginx starts with the good one. -/
theorem live_accepted_twice :
    (Everywhere ReadsAccepted trace ∧ Everywhere ReadsAccepted restarted) ∧
      Everywhere (PassKeeps .apps) restarted ∧ ∀ live, Everywhere (PassKeeps live) trace := by
  have reading :
      (exec (Lib.guarded (step closed) Careful) .init schedule).map Prod.snd = some trace := by
    decide +kernel
  have starting :
      (exec (Lib.guarded (step closed) Careful) .init restart).map Prod.snd = some restarted := by
    decide +kernel
  have settled :
    (exec (Lib.guarded (step closed) (KillsSettled .apps)) .init restart).map Prod.snd =
      some restarted := by
    decide +kernel
  have alive : (exec (Lib.guarded (step closed) fun _ label => label ≠ .kill) .init schedule).map
      Prod.snd = some trace := by
    decide +kernel
  obtain ⟨_, read⟩ := Run.of_guarded reading
  obtain ⟨_, started⟩ := Run.of_guarded starting
  obtain ⟨_, kept⟩ := Run.of_guarded settled
  obtain ⟨_, unkilled⟩ := Run.of_guarded alive
  exact ⟨⟨(live_accepted closed).1 _ _ read, (live_accepted closed).1 _ _ started⟩,
    (live_accepted closed).2.1 .apps _ _ kept, (live_accepted closed).2.2 _ _ unkilled⟩

open Volume in
/-- **A kill right behind the move**: nginx starts with a file `nginx -t` refuses. -/
theorem killed_untested : ∃ trace state, Run (step closed) (fun _ _ => True) .init trace state ∧
    trace = [.killed, .read (some broken)] ∧ closed .apps broken = false := by
  have done : exec (step closed) .init
      (.rename .apps broken :: commands 3 ++ [.kill, .read]) = some (_, _) := rfl
  exact ⟨_, _, Run.of_exec (fun _ _ _ => trivial) done, rfl, by decide +kernel⟩

end OpenBerat.Nginx.Reload
