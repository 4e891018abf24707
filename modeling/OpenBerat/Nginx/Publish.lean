/-
**Publishing the table.**

A call of `publish_conf` reads the table and then, for one file and the next, opens and truncates a
temporary name, writes, and renames onto the staged name. All calls share the temporary names: an
open file is an inode, the names are links to inodes, and a rename moves whatever the temporary name
links to. Changes of the table are followed by a call of their own.

* `overwrite_take`: one write of a call that has the file to itself.
* `sound_step`: what a step in order keeps.
* `publishes`: as long as no call opens a temporary file another one has open and none renames an
  older table over a newer one, a staged file is whole and the last one is the last table's.
* `published_together`: two calls at a time that keep the order.
* `half_staged`: two calls on one temporary file.
-/

import OpenBerat.Lib.Run
import OpenBerat.Nginx.Reload
import OpenBerat.Nginx.Render

namespace OpenBerat.Nginx.Publish

open Lib (Run logged)
open Reload (Live)

/-! ### The files and the calls -/

/-- Bytes written into a file at an offset; a hole in front of them is filled with zeros. -/
def overwrite (content : Bytes) (offset : Nat) (chunk : Bytes) : Bytes :=
  content.take offset ++ List.replicate (offset - content.length) 0 ++ chunk ++
    content.drop (offset + chunk.length)

/-- **A write behind what is already there.** -/
theorem overwrite_take {body : Bytes} {offset : Nat} (within : offset ≤ body.length) (count : Nat) :
    overwrite (body.take offset) offset ((body.drop offset).take count) =
      body.take (offset + ((body.drop offset).take count).length) := by
  have length : (body.take offset).length = offset := by
    rw [List.length_take]
    omega
  have short : (body.take offset).length ≤ offset +
    ((body.drop offset).take count).length := by omega
  unfold overwrite
  rw [List.take_take, Nat.min_self, length, Nat.sub_self, List.replicate_zero, List.append_nil,
    List.drop_eq_nil_of_le short, List.append_nil, List.take_add]
  congr 1
  rw [List.length_take, List.take_eq_take_iff]
  omega

/-- A write over all that is there. -/
theorem overwrite_start {content chunk : Bytes} (longer : content.length ≤ chunk.length) :
    overwrite content 0 chunk = chunk := by
  unfold overwrite
  rw [Nat.zero_sub, Nat.zero_add, List.drop_eq_nil_of_le longer, List.append_nil]
  rfl

/-- What a call has read: the rows, and how often the table had been changed. -/
structure Snapshot (Table : Type) where
  table : Table
  updates : Nat

/-- How a command of a call ends. -/
inductive Outcome
  | ok
  /-- There was nothing to rename. -/
  | missing
  /-- The database or the disk. -/
  | failed

/-- What a call does next. -/
inductive Task (Table : Type)
  | idle
  | reading
  | creating (name : Live) (read : Snapshot Table)
  | writing (name : Live) (read : Snapshot Table) (inode offset : Nat)
  | moving (name : Live) (read : Snapshot Table)
  | returned (outcome : Outcome)

/-- The table, the files by their inodes, and the calls. -/
structure State (Table : Type) where
  table : Table
  updates : Nat
  inodes : Nat → Bytes
  /-- The first inode not used yet. -/
  fresh : Nat
  /-- `<name>.writing`, `<name>.staged`, and the last staged file the reloader has taken. -/
  writing : Live → Option Nat
  staged : Live → Option Nat
  taken : Live → Option Nat
  tasks : Nat → Task Table

/-- What a run shows: the table has changed, and a file is staged. -/
inductive Event (Table : Type)
  | updated (table : Table)
  /-- A table changed that often before is staged. -/
  | staged (name : Live) (updates : Nat)

/-- A call begins or goes on, a handler changes the table, and the reloader takes a file. -/
inductive Label (Table : Type)
  /-- The call at startup. -/
  | begin (task : Nat)
  /-- A handler has changed the table and makes its call. -/
  | update (task : Nat) (table : Table)
  | advance (task : Nat)
  /-- The call writes some of what it has left. -/
  | write (task count : Nat)
  | fail (task : Nat)
  /-- The reloader takes a staged file. -/
  | take (name : Live)

section Machine

variable {Table : Type}

/-- The start, with an empty volume. -/
def State.init (table : Table) : State Table :=
  ⟨table, 0, fun _ => [], 0, fun _ => none, fun _ => none, fun _ => none, fun _ => .idle⟩

/-- A call has moved on. -/
def State.put (state : State Table) (task : Nat) (next : Task Table) : State Table :=
  { state with tasks := Function.update state.tasks task next }

/-- A new temporary file. -/
def State.create (state : State Table) (name : Live) : State Table :=
  { state with
    inodes := Function.update state.inodes state.fresh []
    fresh := state.fresh + 1
    writing := Function.update state.writing name (some state.fresh) }

/-- New content of a file. -/
def State.fill (state : State Table) (inode : Nat) (content : Bytes) : State Table :=
  { state with inodes := Function.update state.inodes inode content }

/-- The temporary name's file under the staged name. -/
def State.rename (state : State Table) (name : Live) (inode : Nat) : State Table :=
  { state with
    writing := Function.update state.writing name none
    staged := Function.update state.staged name (some inode) }

/-- The staged file in the reloader's hands. -/
def State.hand (state : State Table) (name : Live) (inode : Nat) : State Table :=
  { state with
    staged := Function.update state.staged name none
    taken := Function.update state.taken name (some inode) }

/-- The table changed. -/
def State.change (state : State Table) (table : Table) : State Table :=
  { state with table := table, updates := state.updates + 1 }

/-- What follows a file that is staged. -/
def staged (read : Snapshot Table) : Live → Task Table
  | .apps => .creating .breakglass read
  | .breakglass => .returned .ok

section Step

variable (render : Live → Table → Bytes)

/-- The next command of a call. -/
def advance (state : State Table) (task : Nat) : Task Table →
    Option (State Table × List (Event Table))
  | .reading => some (state.put task (.creating .apps ⟨state.table, state.updates⟩), [])
  | .creating name read =>
    match state.writing name with
    | some inode => some ((state.fill inode []).put task (.writing name read inode 0), [])
    | none => some ((state.create name).put task (.writing name read state.fresh 0), [])
  | .writing name read _ offset =>
    if (render name read.table).length ≤ offset then some (state.put task (.moving name read), [])
    else none
  | .moving name read =>
    match state.writing name with
    | none => some (state.put task (.returned .missing), [])
    | some inode =>
      some ((state.rename name inode).put task (staged read name), [.staged name read.updates])
  | _ => none

/-- One step, and what it shows. -/
def step (state : State Table) : Label Table → Option (State Table × List (Event Table))
  | .begin task =>
    match state.tasks task with
    | .idle => some (state.put task .reading, [])
    | _ => none
  | .update task table =>
    match state.tasks task with
    | .idle => some ((state.change table).put task .reading, [.updated table])
    | _ => none
  | .advance task => advance render state task (state.tasks task)
  | .write task count =>
    match state.tasks task with
    | .writing name read inode offset =>
      let chunk := ((render name read.table).drop offset).take count
      some ((state.fill inode (overwrite (state.inodes inode) offset chunk)).put task
        (.writing name read inode (offset + chunk.length)), [])
    | _ => none
  | .fail task =>
    match state.tasks task with
    | .idle => none
    | .returned _ => none
    | _ => some (state.put task (.returned .failed), [])
  | .take name =>
    match state.staged name with
    | none => none
    | some inode => some (state.hand name inode, [])

/-! ### What is claimed of a run -/

/-- The table at some moment of the run. -/
def Known (start : Table) (past : List (Event Table)) (table : Table) : Prop :=
  table = start ∨ .updated table ∈ past

/-- A staged file is the complete rendering of some table. -/
def Whole (start : Table) (past : List (Event Table)) (state : State Table) : Prop :=
  ∀ name inode, state.staged name = some inode →
    ∃ table, Known start past table ∧ state.inodes inode = render name table

/-- Some call has been made, and all have returned. -/
def Quiet (state : State Table) : Prop :=
  (∃ task outcome, state.tasks task = .returned outcome) ∧
    ∀ task, state.tasks task = .idle ∨ ∃ outcome, state.tasks task = .returned outcome

/-- The last staged files, taken or not, are the rendering of the table as it is. -/
def Current (state : State Table) : Prop :=
  ∀ name, ∃ inode, (state.staged name).or (state.taken name) = some inode ∧
    state.inodes inode = render name state.table

end Step

/-- A call opens no temporary file that is there, and renames no older table over a newer one; and
no command fails. -/
def Orderly : List (Event Table) × State Table → Label Table → Prop
  | (past, state), .advance task =>
    match state.tasks task with
    | .creating name _ => state.writing name = none
    | .moving name read => ∀ updates, .staged name updates ∈ past → updates ≤ read.updates
    | _ => True
  | _, .fail _ => False
  | _, _ => True

/-! ### What steps in order keep -/

variable {render : Live → Table → Bytes} {start : Table} {past : List (Event Table)}
  {state next : State Table} {out : List (Event Table)}

/-- A snapshot of the run, of the table as it is unless it has been changed since. -/
structure Read (start : Table) (past : List (Event Table)) (table : Table) (updates : Nat)
    (read : Snapshot Table) : Prop where
  known : Known start past read.table
  earlier : read.updates ≤ updates
  current : read.updates = updates → read.table = table

/-- The temporary file a call has open. -/
def Task.opened : Task Table → Option Live
  | .writing name _ _ _ => some name
  | .moving name _ => some name
  | _ => none

/-- What is behind a call's next command. -/
def Behind (render : Live → Table → Bytes) (start : Table) (past : List (Event Table))
    (state : State Table) : Task Table → Prop
  | .creating _ read => Read start past state.table state.updates read
  | .writing name read inode offset => Read start past state.table state.updates read ∧
    state.writing name = some inode ∧ state.inodes inode = (render name read.table).take offset ∧
      offset ≤ (render name read.table).length
  | .moving name read => Read start past state.table state.updates read ∧
    ∃ inode, state.writing name = some inode ∧ state.inodes inode = render name read.table
  | _ => True

/-- The call will still stage this file from a table changed that often. -/
def Owes (name : Live) (updates : Nat) : Task Table → Prop
  | .reading => True
  | .creating file read => read.updates = updates ∧ (file = name ∨ file = .apps)
  | .writing file read _ _ => read.updates = updates ∧ (file = name ∨ file = .apps)
  | .moving file read => read.updates = updates ∧ (file = name ∨ file = .apps)
  | _ => False

/-- The last staged file under a name, if there is one: the newest table of those staged. -/
def Last (render : Live → Table → Bytes) (start : Table) (past : List (Event Table))
    (state : State Table) (name : Live) : Prop :=
  ((∀ updates, .staged name updates ∉ past) ∧ (state.staged name).or (state.taken name) = none) ∨
    ∃ read inode, Read start past state.table state.updates read ∧
      .staged name read.updates ∈ past ∧
      (∀ updates, .staged name updates ∈ past → updates ≤ read.updates) ∧
      (state.staged name).or (state.taken name) = some inode ∧
      state.inodes inode = render name read.table

/-- **What a run keeps** in which no call opens a file that another one is writing. -/
structure Sound (render : Live → Table → Bytes) (start : Table) (past : List (Event Table))
    (state : State Table) : Prop where
  known : Known start past state.table
  behind : ∀ task, Behind render start past state (state.tasks task)
  alone : ∀ task other name, (state.tasks task).opened = some name →
    (state.tasks other).opened = some name → task = other
  used : ∀ name inode, state.writing name = some inode → inode < state.fresh
  apart : ∀ name inode, state.writing name = some inode →
    (∀ other, state.writing other = some inode → other = name) ∧
    ∀ other, state.staged other ≠ some inode ∧ state.taken other ≠ some inode
  below : ∀ name inode, state.staged name = some inode ∨ state.taken name = some inode →
    inode < state.fresh
  last : ∀ name, Last render start past state name
  due : ∀ name, (∃ task, state.tasks task ≠ .idle) →
    .staged name state.updates ∈ past ∨ ∃ task, Owes name state.updates (state.tasks task)

theorem sound_init (start : Table) : Sound render start [] (.init start) := by
  have last : ∀ name, Last render start [] (.init start) name := fun _ =>
    Or.inl ⟨fun _ => List.not_mem_nil, rfl⟩
  refine ⟨Or.inl rfl, fun _ => trivial, ?_, ?_, ?_, ?_, last, ?_⟩
  · exact fun _ _ _ opened => nomatch opened
  · exact fun _ _ linked => nomatch linked
  · exact fun _ _ linked => nomatch linked
  · rintro _ _ (linked | linked)
    · cases linked
    · cases linked
  · rintro _ ⟨task, busy⟩
    exact absurd rfl busy

theorem Known.append {table : Table} (known : Known start past table) (more : List (Event Table)) :
    Known start (past ++ more) table :=
  known.imp_right (List.mem_append_left _)

/-- **A call the step is not about.** -/
theorem Behind.frame {task : Task Table} {more : List (Event Table)}
    (behind : Behind render start past state task)
    (table : next.updates = state.updates ∧ next.table = state.table ∨ state.updates < next.updates)
    (file : ∀ name inode, task.opened = some name → state.writing name = some inode →
      next.writing name = some inode ∧ next.inodes inode = state.inodes inode) :
    Behind render start (past ++ more) next task := by
  have reads : ∀ read, Read start past state.table state.updates read →
      Read start (past ++ more) next.table next.updates read := by
    rintro read ⟨known, earlier, current⟩
    refine ⟨known.append more, ?_, fun same => ?_⟩
    · omega
    · rcases table with ⟨again, table⟩ | later
      · rw [table]
        exact current (by omega)
      · omega
  cases task with
  | creating name read => exact reads read behind
  | writing name read inode offset =>
    obtain ⟨read, linked, content, within⟩ := behind
    obtain ⟨still, same⟩ := file name inode rfl linked
    exact ⟨reads _ read, still, same.trans content, within⟩
  | moving name read =>
    obtain ⟨read, inode, linked, content⟩ := behind
    obtain ⟨still, same⟩ := file name inode rfl linked
    exact ⟨reads _ read, inode, still, same.trans content⟩
  | idle => trivial
  | reading => trivial
  | returned outcome => trivial

/-- **A name the step is not about.** -/
theorem Last.frame {name : Live} {more : List (Event Table)}
    (last : Last render start past state name)
    (table : next.updates = state.updates ∧ next.table = state.table ∨ state.updates < next.updates)
    (quiet : ∀ updates, .staged name updates ∉ more)
    (same : (next.staged name).or (next.taken name) = (state.staged name).or (state.taken name))
    (content : ∀ inode, (state.staged name).or (state.taken name) = some inode →
      next.inodes inode = state.inodes inode) :
    Last render start (past ++ more) next name := by
  have events : ∀ updates, .staged name updates ∈ past ++ more ↔ .staged name updates ∈ past := by
    intro updates
    rw [List.mem_append, or_iff_left (quiet updates)]
  unfold Last
  simp only [events, same]
  refine last.imp_right ?_
  rintro ⟨read, inode, ⟨known, earlier, current⟩, staged, newest, linked, body⟩
  refine ⟨read, inode, ⟨known.append more, ?_, fun again => ?_⟩, staged, newest, linked,
    (content inode linked).trans body⟩
  · omega
  · rcases table with ⟨unchanged, table⟩ | later
    · rw [table]
      exact current (by omega)
    · omega

/-! ### One step -/

theorem put_self (state : State Table) (task : Nat) (new : Task Table) :
    (state.put task new).tasks task = new :=
  Function.update_self ..

theorem put_of_ne (state : State Table) {task other : Nat} (new : Task Table)
    (different : other ≠ task) :
    (state.put task new).tasks other = state.tasks other :=
  Function.update_of_ne different ..

/-- What holds of the call a step is about and of every other one holds of all. -/
theorem forall_put {property : Task Table → Prop} {task : Nat} {new : Task Table}
    (here : property new)
    (others : ∀ other, other ≠ task → property (state.tasks other)) (other : Nat) :
    property ((state.put task new).tasks other) :=
  (Function.forall_update_iff state.tasks fun _ content => property content).mpr
    ⟨here, others⟩ other

/-- No other call gets the file a call keeps open, or one that nobody has open. -/
theorem Sound.alone_put {task : Nat} {new : Task Table} (sound : Sound render start past state)
    (opened : ∀ name, new.opened = some name → (state.tasks task).opened = some name ∨
      ∀ other, (state.tasks other).opened ≠ some name) :
    ∀ first second name, ((state.put task new).tasks first).opened = some name →
      ((state.put task new).tasks second).opened = some name → first = second := by
  have lone : ∀ other name, other ≠ task → new.opened = some name →
      (state.tasks other).opened ≠ some name := by
    intro other name different one two
    rcases opened name one with mine | nobody
    · exact different (sound.alone other task name two mine)
    · exact nobody other two
  intro first second name one two
  by_cases here : first = task
  · by_cases there : second = task
    · rw [here, there]
    · rw [here, put_self] at one
      rw [put_of_ne state new there] at two
      exact absurd two (lone second name there one)
  · rw [put_of_ne state new here] at one
    by_cases there : second = task
    · rw [there, put_self] at two
      exact absurd one (lone first name here two)
    · rw [put_of_ne state new there] at two
      exact sound.alone first second name one two

/-- What is owed stays owed where the call keeps owing it. -/
theorem Sound.due_put {task : Nat} {new : Task Table} (sound : Sound render start past state)
    {name : Live}
    (owes : state.tasks task = .idle ∨ Owes name state.updates (state.tasks task) →
      Owes name state.updates new) :
    .staged name state.updates ∈ past ∨
      ∃ other, Owes name state.updates ((state.put task new).tasks other) := by
  by_cases idle : state.tasks task = .idle
  · refine Or.inr ⟨task, ?_⟩
    rw [put_self]
    exact owes (Or.inl idle)
  · refine (sound.due name ⟨task, idle⟩).imp_right ?_
    rintro ⟨other, owing⟩
    by_cases same : other = task
    · refine ⟨task, ?_⟩
      rw [put_self]
      exact owes (Or.inr (same ▸ owing))
    · refine ⟨other, ?_⟩
      rw [put_of_ne state new same]
      exact owing

/-- **A step that touches no file.** -/
theorem Sound.put {task : Nat} {new : Task Table} (sound : Sound render start past state)
    (behind : Behind render start past state new)
    (opened : ∀ name, new.opened = some name → (state.tasks task).opened = some name)
    (owes : ∀ name, state.tasks task = .idle ∨ Owes name state.updates (state.tasks task) →
      Owes name state.updates new) : Sound render start past (state.put task new) := by
  refine ⟨sound.known, ?_, sound.alone_put fun name one => Or.inl (opened name one), sound.used,
    sound.apart, sound.below, sound.last, fun name _ => sound.due_put (owes name)⟩
  exact forall_put behind fun other _ => sound.behind other

theorem sound_reading (task : Nat) (sound : Sound render start past state) :
    Sound render start past (state.put task (.creating .apps ⟨state.table, state.updates⟩)) := by
  refine sound.put ⟨sound.known, le_refl _, fun _ => rfl⟩ (fun _ opened => nomatch opened) ?_
  exact fun name _ => ⟨rfl, Or.inr rfl⟩

theorem sound_written {task : Nat} {name : Live} {read : Snapshot Table} {inode offset : Nat}
    (sound : Sound render start past state)
    (writing : state.tasks task = .writing name read inode offset)
    (all : (render name read.table).length ≤ offset) :
    Sound render start past (state.put task (.moving name read)) := by
  have behind := sound.behind task
  rw [writing] at behind
  obtain ⟨known, linked, content, within⟩ := behind
  refine sound.put ⟨known, inode, linked, ?_⟩ ?_ ?_
  · rw [content, List.take_of_length_le all]
  · rw [writing]
    exact fun _ opened => opened
  · rw [writing]
    exact fun _ owing => owing.resolve_left (fun same => nomatch same)

/-- Whoever has a name open has linked it. -/
theorem Sound.linked {task : Nat} {name : Live} (sound : Sound render start past state)
    (opened : (state.tasks task).opened = some name) : ∃ inode,
    state.writing name = some inode := by
  have behind := sound.behind task
  cases current : state.tasks task with
  | writing file read inode offset =>
    rw [current] at behind opened
    cases opened
    exact ⟨inode, behind.2.1⟩
  | moving file read =>
    rw [current] at behind opened
    cases opened
    obtain ⟨_, inode, linked, _⟩ := behind
    exact ⟨inode, linked⟩
  | idle =>
    rw [current] at opened
    cases opened
  | reading =>
    rw [current] at opened
    cases opened
  | creating file read =>
    rw [current] at opened
    cases opened
  | returned outcome =>
    rw [current] at opened
    cases opened

/-- **A temporary file is created** where there is none. -/
theorem sound_creating {task : Nat} {name : Live} {read : Snapshot Table}
    (sound : Sound render start past state) (creating : state.tasks task = .creating name read)
    (free : state.writing name = none) :
    Sound render start past ((state.create name).put task (.writing name read state.fresh 0)) := by
  have known := sound.behind task
  rw [creating] at known
  have nobody : ∀ other, (state.tasks other).opened ≠ some name := by
    intro other opened
    obtain ⟨inode, linked⟩ := sound.linked opened
    rw [free] at linked
    cases linked
  have content : ∀ inode, inode < state.fresh →
      (state.create name).inodes inode = state.inodes inode :=
    fun inode used => Function.update_of_ne used.ne ..
  have links : ∀ file inode, (state.create name).writing file = some inode →
      file = name ∧ inode = state.fresh ∨ state.writing file = some inode := by
    intro file inode link
    by_cases same : file = name
    · rw [same] at link ⊢
      have here : (state.create name).writing name = some state.fresh := Function.update_self ..
      rw [here] at link
      exact Or.inl ⟨rfl, (Option.some.inj link).symm⟩
    · have there : (state.create name).writing file = state.writing file :=
        Function.update_of_ne same ..
      exact Or.inr (there ▸ link)
  have same : (state.create name).writing name = some state.fresh := Function.update_self ..
  refine ⟨sound.known, forall_put ⟨known, same, ?_, Nat.zero_le _⟩ fun other different => ?_, ?_,
    fun file inode link => ?_, fun file inode link => ?_, fun file inode link => ?_, fun file => ?_,
    ?_⟩
  · show (state.create name).inodes state.fresh = _
    rw [List.take_zero]
    exact Function.update_self ..
  · have frame : Behind render start (past ++ []) (state.create name) (state.tasks other) := by
      refine (sound.behind other).frame (Or.inl ⟨rfl, rfl⟩) fun file inode opened link => ⟨?_, ?_⟩
      · have apart : file ≠ name := by
          rintro rfl
          exact nobody other opened
        rw [← link]
        exact Function.update_of_ne apart ..
      · exact content inode (sound.used file inode link)
    rw [List.append_nil] at frame
    exact frame
  · refine sound.alone_put fun file opened => Or.inr ?_
    cases opened
    exact nobody
  · rcases links file inode link with ⟨_, rfl⟩ | old
    · exact Nat.lt_succ_self _
    · exact Nat.lt_succ_of_lt (sound.used file inode old)
  · rcases links file inode link with ⟨rfl, rfl⟩ | old
    · refine ⟨fun other linked => ?_, fun other => ⟨fun linked => ?_, fun linked => ?_⟩⟩
      · rcases links other _ linked with ⟨rfl, _⟩ | used
        · rfl
        · exact absurd (sound.used other _ used) (lt_irrefl _)
      · exact absurd (sound.below other _ (Or.inl linked)) (lt_irrefl _)
      · exact absurd (sound.below other _ (Or.inr linked)) (lt_irrefl _)
    · refine ⟨fun other linked => ?_, (sound.apart file inode old).2⟩
      rcases links other _ linked with ⟨_, rfl⟩ | used
      · exact absurd (sound.used file _ old) (lt_irrefl _)
      · exact (sound.apart file inode old).1 other used
  · exact Nat.lt_succ_of_lt (sound.below file inode link)
  · have frame : Last render start (past ++ []) (state.create name) file := by
      refine (sound.last file).frame (Or.inl ⟨rfl, rfl⟩) (fun _ => List.not_mem_nil) rfl ?_
      intro inode linked
      refine content inode (sound.below file inode ?_)
      rcases Option.or_eq_some_iff.mp linked with here | ⟨_, there⟩
      · exact Or.inl here
      · exact Or.inr there
    rw [List.append_nil] at frame
    exact frame
  · refine fun file _ => sound.due_put ?_
    rw [creating]
    exact fun owing => owing.resolve_left (fun same => nomatch same)

/-- A staged file is not a temporary one. -/
theorem Sound.staged_ne {name file : Live} {inode other : Nat}
    (sound : Sound render start past state) (linked : state.writing name = some inode)
    (kept : (state.staged file).or (state.taken file) = some other) : other ≠ inode := by
  rintro rfl
  obtain ⟨staged, taken⟩ := (sound.apart name other linked).2 file
  rcases Option.or_eq_some_iff.mp kept with here | ⟨_, there⟩
  · exact staged here
  · exact taken there

/-- Two calls have different files open. -/
theorem Sound.inode_ne {task other : Nat} {name file : Live} {inode another : Nat}
    (sound : Sound render start past state) (different : other ≠ task)
    (mine : (state.tasks task).opened = some name) (yours : (state.tasks other).opened = some file)
    (linked : state.writing name = some inode) (link : state.writing file = some another) :
    file ≠ name ∧ another ≠ inode := by
  have names : file ≠ name := by
    rintro rfl
    exact different (sound.alone other task file yours mine)
  refine ⟨names, ?_⟩
  rintro rfl
  exact names ((sound.apart name another linked).1 file link)

/-- **A call writes** into the file it has to itself. -/
theorem sound_write {task : Nat} {name : Live} {read : Snapshot Table} {inode offset : Nat}
    (sound : Sound render start past state)
    (writing : state.tasks task = .writing name read inode offset)
    (count : Nat) :
    Sound render start past
      ((state.fill inode (overwrite (state.inodes inode) offset
        (((render name read.table).drop offset).take count))).put task
        (.writing name read inode
          (offset + (((render name read.table).drop offset).take count).length))) := by
  have behind := sound.behind task
  have opened : (state.tasks task).opened = some name := by
    rw [writing]
    rfl
  rw [writing] at behind
  obtain ⟨known, linked, content, within⟩ := behind
  rw [content, overwrite_take within]
  refine ⟨sound.known,
    forall_put ⟨known, linked, Function.update_self .., ?_⟩ fun other different => ?_,
    sound.alone_put fun file again => Or.inl ?_, sound.used, sound.apart, sound.below,
    fun file => ?_, fun file _ => sound.due_put ?_⟩
  · rw [List.length_take, List.length_drop]
    omega
  · have frame : Behind render start (past ++ []) (state.fill inode
        ((render name read.table).take
          (offset + (((render name read.table).drop offset).take count).length)))
        (state.tasks other) := by
      refine (sound.behind other).frame (Or.inl ⟨rfl, rfl⟩) fun file another yours link =>
        ⟨link, ?_⟩
      exact Function.update_of_ne (sound.inode_ne different opened yours linked link).2 ..
    rw [List.append_nil] at frame
    exact frame
  · rw [opened]
    exact again
  · have frame : Last render start (past ++ []) (state.fill inode
        ((render name read.table).take
          (offset + (((render name read.table).drop offset).take count).length))) file := by
      refine (sound.last file).frame (Or.inl ⟨rfl, rfl⟩) (fun _ => List.not_mem_nil) rfl ?_
      exact fun other kept => Function.update_of_ne (sound.staged_ne linked kept) ..
    rw [List.append_nil] at frame
    exact frame
  · rw [writing]
    exact fun owing => owing.resolve_left (fun same => nomatch same)

theorem staged_opened (read : Snapshot Table) (name : Live) : (staged read name).opened = none := by
  cases name with
  | apps => rfl
  | breakglass => rfl

/-- **A rename**: the call's own file, whole, and no older than what was staged under the name. -/
theorem sound_moving {task : Nat} {name : Live} {read : Snapshot Table} {inode : Nat}
    (sound : Sound render start past state) (moving : state.tasks task = .moving name read)
    (linked : state.writing name = some inode)
    (newest : ∀ updates, .staged name updates ∈ past → updates ≤ read.updates) :
    Sound render start (past ++ [.staged name read.updates])
      ((state.rename name inode).put task (staged read name)) := by
  have behind := sound.behind task
  have opened : (state.tasks task).opened = some name := by
    rw [moving]
    rfl
  rw [moving] at behind
  obtain ⟨⟨known, earlier, current⟩, file, link, content⟩ := behind
  rw [linked] at link
  cases link
  have snapshot : Read start (past ++ [.staged name read.updates]) state.table state.updates read :=
    ⟨known.append _, earlier, current⟩
  have links : ∀ other file, (state.rename name inode).writing other = some file →
      other ≠ name ∧ state.writing other = some file := by
    intro other file link
    by_cases same : other = name
    · rw [same] at link
      have gone : (state.rename name inode).writing name = none := Function.update_self ..
      rw [gone] at link
      cases link
    · have kept : (state.rename name inode).writing other = state.writing other :=
        Function.update_of_ne same ..
      exact ⟨same, kept ▸ link⟩
  have holds : ∀ other file, (state.rename name inode).staged other = some file →
      other = name ∧ file = inode ∨ state.staged other = some file := by
    intro other file link
    by_cases same : other = name
    · rw [same] at link ⊢
      have here : (state.rename name inode).staged name = some inode := Function.update_self ..
      rw [here] at link
      exact Or.inl ⟨rfl, (Option.some.inj link).symm⟩
    · have kept : (state.rename name inode).staged other = state.staged other :=
        Function.update_of_ne same ..
      exact Or.inr (kept ▸ link)
  refine ⟨sound.known.append _, forall_put ?_ fun other different => ?_,
    sound.alone_put fun file again => ?_, fun other file link => ?_, fun other file link => ?_,
    fun other file link => ?_, fun other => ?_, fun other _ => ?_⟩
  · cases name with
    | apps => exact snapshot
    | breakglass => trivial
  · refine (sound.behind other).frame (Or.inl ⟨rfl, rfl⟩) fun file another yours link => ⟨?_, rfl⟩
    rw [← link]
    exact Function.update_of_ne (sound.inode_ne different opened yours linked link).1 ..
  · rw [staged_opened] at again
    cases again
  · exact sound.used other file (links other file link).2
  · obtain ⟨different, link⟩ := links other file link
    obtain ⟨only, kept⟩ := sound.apart other file link
    refine ⟨fun third also => only third (links third file also).2, fun third =>
      ⟨fun staged => ?_, (kept third).2⟩⟩
    rcases holds third file staged with ⟨_, rfl⟩ | old
    · exact different (only name linked).symm
    · exact (kept third).1 old
  · rcases link with staged | taken
    · rcases holds other file staged with ⟨_, rfl⟩ | old
      · exact sound.used name _ linked
      · exact sound.below other file (Or.inl old)
    · exact sound.below other file (Or.inr taken)
  · by_cases same : other = name
    · subst same
      have here : .staged other read.updates ∈ past ++ [.staged other read.updates] :=
        List.mem_append_right _ (List.mem_singleton_self _)
      refine Or.inr ⟨_, inode, snapshot, here, ?_, ?_, content⟩
      · intro updates staged
        rcases List.mem_append.mp staged with old | new
        · exact newest updates old
        · cases List.mem_singleton.mp new
          exact le_refl _
      · show (Function.update state.staged other (some inode) other).or _ = _
        rw [Function.update_self]
        rfl
    · refine (sound.last other).frame (Or.inl ⟨rfl, rfl⟩) (fun updates new => ?_) ?_ fun _ _ => rfl
      · cases List.mem_singleton.mp new
        exact same rfl
      · show (Function.update state.staged name (some inode) other).or _ = _
        rw [Function.update_of_ne same]
        rfl
  · by_cases here : read.updates = state.updates ∧ other = name
    · obtain ⟨same, rfl⟩ := here
      refine Or.inl (List.mem_append_right _ ?_)
      rw [same]
      exact List.mem_singleton_self _
    · refine (sound.due_put ?_).imp_left (List.mem_append_left _)
      rw [moving]
      rintro (idle | ⟨same, file⟩)
      · cases idle
      · have second : other ≠ name := fun again => here ⟨same, again⟩
        rcases file with rfl | rfl
        · exact absurd rfl second
        · cases other with
          | apps => exact absurd rfl second
          | breakglass => exact ⟨same, Or.inl rfl⟩

/-- **The reloader takes a staged file**, which stays the last one under its name. -/
theorem sound_take {name : Live} {inode : Nat} (sound : Sound render start past state)
    (staged : state.staged name = some inode) :
    Sound render start past (state.hand name inode) := by
  have gone : (state.hand name inode).staged name = none := Function.update_self ..
  have here : (state.hand name inode).taken name = some inode := Function.update_self ..
  have holds : ∀ other file, (state.hand name inode).staged other = some file ∨
      (state.hand name inode).taken other = some file →
      state.staged other = some file ∨ state.taken other = some file := by
    intro other file link
    by_cases same : other = name
    · subst same
      rw [gone, here] at link
      rcases link with link | link
      · cases link
      · exact Or.inl (staged.trans link)
    · have kept : (state.hand name inode).staged other = state.staged other :=
        Function.update_of_ne same ..
      have old : (state.hand name inode).taken other = state.taken other :=
        Function.update_of_ne same ..
      rw [kept, old] at link
      exact link
  refine ⟨sound.known, sound.behind, sound.alone, sound.used, fun file link linked => ?_,
    fun other file link => sound.below other file (holds other file link), fun other => ?_,
    sound.due⟩
  · obtain ⟨only, kept⟩ := sound.apart file link linked
    refine ⟨only, fun other => ⟨fun link => ?_, fun link => ?_⟩⟩
    · exact (holds other _ (Or.inl link)).elim (kept other).1 (kept other).2
    · exact (holds other _ (Or.inr link)).elim (kept other).1 (kept other).2
  · have same : ((state.hand name inode).staged other).or ((state.hand name inode).taken other) =
        (state.staged other).or (state.taken other) := by
      by_cases same : other = name
      · rw [same, gone, here, staged]
        rfl
      · have kept : (state.hand name inode).staged other = state.staged other :=
          Function.update_of_ne same ..
        have old : (state.hand name inode).taken other = state.taken other :=
          Function.update_of_ne same ..
        rw [kept, old]
    have frame : Last render start (past ++ []) (state.hand name inode) other :=
      (sound.last other).frame (Or.inl ⟨rfl, rfl⟩) (fun _ => List.not_mem_nil) same fun _ _ => rfl
    rw [List.append_nil] at frame
    exact frame

theorem sound_begin {task : Nat} (sound : Sound render start past state) :
    Sound render start past (state.put task .reading) :=
  sound.put trivial (fun _ opened => nomatch opened) fun _ _ => trivial

/-- **The table changes**: what has been read is of an earlier one, and the new call owes its
files. -/
theorem sound_update (task : Nat) (table : Table) (sound : Sound render start past state) :
    Sound render start (past ++ [.updated table]) ((state.change table).put task .reading) := by
  refine ⟨Or.inr (List.mem_append_right _ (List.mem_singleton_self _)), ?_,
    sound.alone_put fun _ opened => (nomatch opened), sound.used, sound.apart, sound.below,
    fun name => ?_,
    fun _ _ => Or.inr ⟨task, ?_⟩⟩
  · refine forall_put trivial fun other _ => ?_
    exact (sound.behind other).frame (Or.inr (Nat.lt_succ_self _)) fun _ _ _ linked => ⟨linked, rfl⟩
  · refine (sound.last name).frame (Or.inr (Nat.lt_succ_self _)) (fun updates new => ?_) rfl
      fun _ _ => rfl
    exact absurd (List.mem_singleton.mp new) (fun same => nomatch same)
  · rw [put_self]
    trivial

theorem sound_advance {task : Nat} (sound : Sound render start past state)
    (orderly : Orderly (past, state) (.advance task))
    (moved : advance render state task (state.tasks task) = some (next, out)) :
    Sound render start (past ++ out) next := by
  have order : match state.tasks task with
      | .creating name _ => state.writing name = none
      | .moving name read => ∀ updates, .staged name updates ∈ past → updates ≤ read.updates
      | _ => True := orderly
  cases current : state.tasks task with
  | idle =>
    rw [current] at moved
    cases moved
  | returned outcome =>
    rw [current] at moved
    cases moved
  | reading =>
    rw [current] at moved
    cases moved
    rw [List.append_nil]
    exact sound_reading task sound
  | creating name read =>
    rw [current] at moved order
    rw [advance, order] at moved
    cases moved
    rw [List.append_nil]
    exact sound_creating sound current order
  | writing name read inode offset =>
    rw [current] at moved
    rw [advance] at moved
    split at moved
    case isTrue all =>
      cases moved
      rw [List.append_nil]
      exact sound_written sound current all
    case isFalse => cases moved
  | moving name read =>
    rw [current] at moved order
    obtain ⟨inode, linked⟩ := sound.linked (by rw [current]; rfl)
    rw [advance, linked] at moved
    cases moved
    exact sound_moving sound current linked order

/-- **A step in order.** -/
theorem sound_step (label : Label Table) (sound : Sound render start past state)
    (orderly : Orderly (past, state) label) (stepped : step render state label = some (next, out)) :
    Sound render start (past ++ out) next := by
  cases label with
  | begin task =>
    rw [step] at stepped
    split at stepped
    case h_1 =>
      cases stepped
      rw [List.append_nil]
      exact sound_begin sound
    case h_2 => cases stepped
  | update task table =>
    rw [step] at stepped
    split at stepped
    case h_1 =>
      cases stepped
      exact sound_update task table sound
    case h_2 => cases stepped
  | advance task => exact sound_advance sound orderly stepped
  | write task count =>
    rw [step] at stepped
    split at stepped
    case h_1 name read inode offset writing =>
      cases stepped
      rw [List.append_nil]
      exact sound_write sound writing count
    case h_2 => cases stepped
  | fail task => exact orderly.elim
  | take name =>
    rw [step] at stepped
    split at stepped
    case h_1 => cases stepped
    case h_2 inode staged =>
      cases stepped
      rw [List.append_nil]
      exact sound_take sound staged

theorem sound_of_run {trace : List (Event Table)}
    (run : Run (logged (step render)) Orderly ([], .init start) trace (past, state)) :
    Sound render start past state := by
  refine @Run.invariant _ _ _ _ _ _ (fun _ (here : List (Event Table) × State Table) =>
    Sound render start here.1 here.2) (sound_init start) ?_ trace (past, state) run
  rintro _ ⟨before, here⟩ label next out sound orderly stepped
  obtain ⟨after, moved, rfl⟩ := Lib.logged_eq_some.mp stepped
  exact sound_step label sound orderly moved

theorem Sound.whole (sound : Sound render start past state) : Whole render start past state := by
  intro name inode linked
  rcases sound.last name with ⟨_, nothing⟩ | ⟨read, file, ⟨known, _, _⟩, _, _, last, content⟩
  · rw [linked] at nothing
    cases nothing
  · rw [linked] at last
    cases last
    exact ⟨read.table, known, content⟩

theorem Sound.settled (sound : Sound render start past state) (quiet : Quiet state) :
    Current render state := by
  obtain ⟨⟨task, outcome, returned⟩, all⟩ := quiet
  have nothing : ∀ name other, ¬ Owes name state.updates (state.tasks other) := by
    intro name other owing
    rcases all other with idle | ⟨outcome, returned⟩
    · rw [idle] at owing
      exact owing
    · rw [returned] at owing
      exact owing
  intro name
  have staged : .staged name state.updates ∈ past := by
    refine (sound.due name ⟨task, ?_⟩).resolve_right
      (fun ⟨other, owing⟩ => nothing name other owing)
    rw [returned]
    exact fun same => nomatch same
  rcases sound.last name with
    ⟨none, _⟩ | ⟨read, inode, ⟨_, earlier, current⟩, _, newest, linked, content⟩
  · exact absurd staged (none _)
  · have same : read.updates = state.updates := le_antisymm earlier (newest _ staged)
    refine ⟨inode, linked, ?_⟩
    rw [content, current same]

/-! ### Two calls that keep out of each other's way -/

theorem step_written {task : Nat} {name : Live} {read : Snapshot Table} {inode offset : Nat}
    (writing : state.tasks task = .writing name read inode offset)
    (all : (render name read.table).length ≤ offset) :
    step render state (.advance task) = some (state.put task (.moving name read), []) := by
  rw [step, writing, advance, if_pos all]

theorem all_written (body : Bytes) : body.length ≤ 0 + ((body.drop 0).take body.length).length := by
  rw [List.drop_zero, List.take_length]
  omega

/-- No temporary file, and what the first two calls do next. -/
structure Stands (table : Table) (updates : Nat) (one two : Task Table) (state : State Table) :
    Prop where
  table : state.table = table
  updates : state.updates = updates
  writing : ∀ name, state.writing name = none
  one : state.tasks 0 = one
  two : state.tasks 1 = two
  others : ∀ other, state.tasks (other + 2) = .idle

/-- The same, as a state. -/
def standing (table : Table) (updates : Nat) (one two : Task Table) (files : State Table) :
    State Table :=
  { files with
    table := table
    updates := updates
    writing := fun _ => none
    tasks := fun task => match task with
      | 0 => one
      | 1 => two
      | _ => .idle }

theorem Stands.eq {table : Table} {updates : Nat} {one two : Task Table}
    (stands : Stands table updates one two state) :
    standing table updates one two state = state := by
  obtain ⟨rfl, rfl, writing, rfl, rfl, others⟩ := stands
  unfold standing
  congr 1
  · exact funext fun name => (writing name).symm
  · funext task
    match task with
    | 0 => rfl
    | 1 => rfl
    | other + 2 => exact (others other).symm

/-- The first call stages the normal file. -/
theorem first_staged (render : Live → Table → Bytes) (start first : Table) :
    ∃ trace here, Run (logged (step render)) Orderly ([], .init start) trace here ∧
      here.1 = [.updated first, .staged .apps 1] ∧
      Stands first 1 (.creating .breakglass ⟨first, 1⟩) .idle here.2 := by
  refine Run.lead (.update 0 first) trivial rfl ?_
  refine Run.lead (.advance 0) trivial rfl ?_
  refine Run.lead (.advance 0) rfl rfl ?_
  refine Run.lead (.write 0 (render .apps first).length) trivial rfl ?_
  refine Run.lead (.advance 0) trivial
    (Lib.logged_eq_some.mpr ⟨_, step_written rfl (all_written _), rfl⟩) ?_
  refine Run.lead (.advance 0) ?_ rfl ⟨_, _, .refl, rfl, rfl, rfl, ?_, rfl, rfl, fun _ => rfl⟩
  · intro updates staged
    simp at staged
  · intro name
    cases name <;> rfl

/-- The first call stages the breakglass file, and the second one the normal file. -/
theorem both_staged (render : Live → Table → Bytes) (first second : Table) (files : State Table) :
    ∃ trace here, Run (logged (step render)) Orderly ([.updated first, .staged .apps 1],
        standing first 1 (.creating .breakglass ⟨first, 1⟩) .idle files) trace here ∧
      here.1 = [.updated first, .staged .apps 1, .updated second, .staged .breakglass 1,
        .staged .apps 2] ∧
      Stands second 2 (.returned .ok) (.creating .breakglass ⟨second, 2⟩) here.2 := by
  refine Run.lead (.update 1 second) trivial rfl ?_
  refine Run.lead (.advance 1) trivial rfl ?_
  refine Run.lead (.advance 1) rfl rfl ?_
  refine Run.lead (.advance 0) rfl rfl ?_
  refine Run.lead (.write 1 (render .apps second).length) trivial rfl ?_
  refine Run.lead (.write 0 (render .breakglass first).length) trivial rfl ?_
  refine Run.lead (.advance 1) trivial
    (Lib.logged_eq_some.mpr ⟨_, step_written rfl (all_written _), rfl⟩) ?_
  refine Run.lead (.advance 0) trivial
    (Lib.logged_eq_some.mpr ⟨_, step_written rfl (all_written _), rfl⟩) ?_
  refine Run.lead (.advance 0) ?_ rfl ?_
  · intro updates staged
    simp at staged
  refine Run.lead (.advance 1) ?_ rfl ⟨_, _, .refl, rfl, rfl, rfl, ?_, rfl, rfl, fun _ => rfl⟩
  · intro updates staged
    have old : updates = 1 := by simpa using staged
    rw [old]
    exact Nat.le_succ 1
  · intro name
    cases name <;> rfl

/-- The second call stages the breakglass file. -/
theorem second_staged (render : Live → Table → Bytes) (first second : Table) (files : State Table) :
    ∃ trace here, Run (logged (step render)) Orderly ([.updated first, .staged .apps 1,
        .updated second, .staged .breakglass 1, .staged .apps 2],
        standing second 2 (.returned .ok) (.creating .breakglass ⟨second, 2⟩) files) trace here ∧
      here.1 = [.updated first, .staged .apps 1, .updated second, .staged .breakglass 1,
        .staged .apps 2, .staged .breakglass 2] ∧ here.2.table = second ∧ Quiet here.2 := by
  refine Run.lead (.advance 1) rfl rfl ?_
  refine Run.lead (.write 1 (render .breakglass second).length) trivial rfl ?_
  refine Run.lead (.advance 1) trivial
    (Lib.logged_eq_some.mpr ⟨_, step_written rfl (all_written _), rfl⟩) ?_
  refine Run.lead (.advance 1) ?_ rfl ⟨_, _, .refl, rfl, rfl, ⟨0, .ok, rfl⟩, fun task => ?_⟩
  · intro updates staged
    have old : updates = 1 := by simpa using staged
    rw [old]
    exact Nat.le_succ 1
  · match task with
    | 0 => exact Or.inr ⟨.ok, rfl⟩
    | 1 => exact Or.inr ⟨.ok, rfl⟩
    | other + 2 => exact Or.inl rfl

/-- **Two changes and their calls**, which take turns: the second call opens a temporary file once
the first one has renamed it. -/
theorem published_together (render : Live → Table → Bytes) (start first second : Table) :
    ∃ trace here, Run (logged (step render)) Orderly ([], .init start) trace here ∧
      here.1 = [.updated first, .staged .apps 1, .updated second, .staged .breakglass 1,
        .staged .apps 2, .staged .breakglass 2] ∧ here.2.table = second ∧ Quiet here.2 := by
  obtain ⟨_, ⟨past, middle⟩, opening, rfl, stands⟩ := first_staged render start first
  obtain ⟨_, ⟨past, later⟩, together, rfl, last⟩ := both_staged render first second middle
  obtain ⟨_, here, closing, shown⟩ := second_staged render first second later
  rw [stands.eq] at together
  rw [last.eq] at closing
  exact ⟨_, here, (opening.trans together).trans closing, shown⟩

end Machine

/-! ### The two files of the table -/

section Body

variable (urls : Validate.UrlParser) (portalOrigin : Str)

/-- What a call writes. -/
def body : Live → List Application → Bytes
  | .apps, applications => asBytes (renderAppsConf urls applications portalOrigin)
  | .breakglass, applications => asBytes (renderBreakglassConf urls applications portalOrigin)

/-- **Publishing**, as long as calls keep out of each other's temporary files and none renames an
older table over a newer one. -/
theorem publishes (start : List Application) {trace past : List (Event (List Application))}
    {state : State (List Application)}
    (run : Run (logged (step (body urls portalOrigin))) Orderly ([], .init start) trace
      (past, state)) :
    Whole (body urls portalOrigin) start past state ∧
      (Quiet state → Current (body urls portalOrigin) state) :=
  ⟨(sound_of_run run).whole, (sound_of_run run).settled⟩

end Body

open Table in
/-- The application is created while its predecessor's publication is still under way. -/
theorem publishes_wiki : ∃ trace past state,
    Run (logged (step (body urls portal))) Orderly ([], .init []) trace (past, state) ∧
      past = [.updated [hostile], .staged .apps 1, .updated [hostile, wiki], .staged .breakglass 1,
        .staged .apps 2, .staged .breakglass 2] ∧
      Whole (body urls portal) [] past state ∧ state.table = [hostile, wiki] ∧
      Current (body urls portal) state := by
  obtain ⟨trace, ⟨past, state⟩, run, shown, table, quiet⟩ :=
    published_together (body urls portal) [] [hostile] [hostile, wiki]
  obtain ⟨whole, settled⟩ := publishes urls portal [] run
  exact ⟨trace, past, state, run, shown, whole, table, settled quiet⟩

/-! ### Two calls on one temporary file -/

/-- **Half a file is staged**: the second call truncates the first one's file, writes its own
shorter table, and renames the file the first one is still writing. -/
theorem half_staged_of {Table : Type} {render : Live → Table → Bytes} {old new : Table}
    {count : Nat}
    (more : (render .apps new).length < count) (less : count < (render .apps old).length) :
    ∃ trace here, Run (logged (step render)) (fun _ label => ∀ task, label ≠ .fail task)
      ([], .init new) trace here ∧ ¬ Whole render new here.1 here.2 := by
  have all : (render .apps new).length ≤
      0 + (((render .apps new).drop 0).take (render .apps new).length).length := by
    rw [List.drop_zero, List.take_length]
    omega
  refine Run.lead (.update 0 old) (fun _ same => nomatch same) rfl ?_
  refine Run.lead (.advance 0) (fun _ same => nomatch same) rfl ?_
  refine Run.lead (.advance 0) (fun _ same => nomatch same) rfl ?_
  refine Run.lead (.update 1 new) (fun _ same => nomatch same) rfl ?_
  refine Run.lead (.advance 1) (fun _ same => nomatch same) rfl ?_
  refine Run.lead (.advance 1) (fun _ same => nomatch same) rfl ?_
  refine Run.lead (.write 1 (render .apps new).length) (fun _ same => nomatch same) rfl ?_
  refine Run.lead (.advance 1) (fun _ same => nomatch same)
    (Lib.logged_eq_some.mpr ⟨_, step_written rfl all, rfl⟩) ?_
  refine Run.lead (.advance 1) (fun _ same => nomatch same) rfl ?_
  refine Run.lead (.write 0 count) (fun _ same => nomatch same) rfl ⟨_, _, .refl, fun whole => ?_⟩
  obtain ⟨table, known, content⟩ := whole .apps 0 rfl
  have body : overwrite
      (overwrite [] 0 (((render .apps new).drop 0).take (render .apps new).length)) 0
      (((render .apps old).drop 0).take count) = render .apps table := content
  have part : ((render .apps old).take count).length = count := List.length_take_of_le less.le
  have first : overwrite [] 0 (render .apps new) = render .apps new :=
    overwrite_start (Nat.zero_le _)
  rw [List.drop_zero, List.drop_zero, List.take_length, first, overwrite_start (by omega)] at body
  rw [body] at part
  rcases known with rfl | updated
  · omega
  · have which : table = old ∨ table = new := by
      simpa using updated
    rcases which with rfl | rfl
    · omega
    · omega

theorem length_appsBlock (target : Target) :
    target.app.externalHostname.length ≤ (asBytes (appsBlock target)).length := by
  have more := Lib.length_le_utf8 (appsBlock target)
  have parts : target.app.externalHostname.length ≤ (appsBlock target).length := by
    unfold appsBlock
    exact (List.infix_append' _ _ _).length_le
  exact parts.trans more

open Table in
/-- The rows of the normal file are more than one byte. -/
theorem longer_wiki :
    (body urls portal .apps []).length + 1 < (body urls portal .apps [wiki]).length := by
  have shown : renderable urls [wiki] portal = [⟨wiki, "wiki".toList, 8080, "http".toList⟩] := by
    decide +kernel
  have hostname : wiki.externalHostname.length = 23 := by
    decide +kernel
  have none : body urls portal .apps [] = asBytes appsHeader := by
    rw [body, renderAppsConf, show renderable urls [] portal = [] from rfl, List.flatMap_nil,
      List.append_nil]
  have one : body urls portal .apps [wiki] =
      asBytes appsHeader ++ asBytes (appsBlock ⟨wiki, "wiki".toList, 8080, "http".toList⟩) := by
    rw [body, renderAppsConf, shown, List.flatMap_cons, List.flatMap_nil, List.append_nil]
    exact Lib.utf8_append ..
  have block := length_appsBlock ⟨wiki, "wiki".toList, 8080, "http".toList⟩
  dsimp only at block
  rw [none, one, List.length_append]
  omega

open Table in
/-- The two calls and the last application, disabled while the first one writes. -/
theorem half_staged : ¬ ∀ start trace past state,
    Run (logged (step (body urls portal))) (fun _ label => ∀ task, label ≠ .fail task)
        ([], .init start) trace (past, state) →
      Whole (body urls portal) start past state ∧
        (Quiet state → Current (body urls portal) state) := by
  intro all
  obtain ⟨trace, ⟨past, state⟩, run, half⟩ := half_staged_of (Nat.lt_add_one _) longer_wiki
  exact half (all [] trace past state run).1

end OpenBerat.Nginx.Publish
