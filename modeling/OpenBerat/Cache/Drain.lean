/-
**The last flush.**

`flush_all` walks over the whole cache, the writer receives meanwhile, and the shutdown waits until
the writer has received everything the channel took. It is the same walk that `set_subscribed` makes
when a lost subscription is back.

* `Owed`: what is still held, queued or received adds up to what was held when the walk began.
* `delivers_iff`: every scheduling delivers everything exactly when everything fits into the
  channel.
* `flush_loses`: 1025 sessions are one too many.
-/

import Mathlib.Algebra.Group.Nat.Defs
import OpenBerat.Cache.Machine

namespace OpenBerat.Cache

open Lib (Assoc Plan Run total)

section Drain

variable {http : HeaderText} {pathHash : Str → UInt64}

/-! ### What a walk over the whole cache leaves behind -/

variable (http) in
/-- The rows of all live entries. -/
def liveRows (entries : Assoc Key Entry) : List AuditEvent :=
  total (fun _ entry => flush http entry) entries

variable (http) in
/-- The rows that are on their way to the writer, in the cache or already out of it. -/
def held (state : State) : List AuditEvent :=
  state.audit.queue ++ state.rows ++ liveRows http state.inner.entries

/-- The state in which `flush_all` has its snapshot. -/
def walked (plan : Plan Key) (job : Nat) (state : State) : State :=
  { state with
    jobs := Function.update state.jobs job (snapshot plan state.now state.inner .all) }

/-- Steps of the flush and of the writer, every insert of which succeeds. -/
def Draining : Label → Prop
  | .evict _ => True
  | .record _ => True
  | .receive true => True
  | _ => False

/-- The flush is through, and the writer has received what there was. -/
structure Finished (job : Nat) (state : State) : Prop where
  evicted : state.jobs job = []
  recorded : state.rows = []
  received : state.audit.queue = []

variable (http pathHash) in
/-- However the flush and the writer are scheduled, the writer receives everything. -/
def Delivers (plan : Plan Key) (job : Nat) (state : State) : Prop :=
  ∀ middle out, step http pathHash state (.walk job .all plan) = some (middle, out) →
    ∀ trace last, Run (step http pathHash) (fun _ label => Draining label) middle trace last →
      Finished job last → last.received.Perm (state.received ++ held http state)

theorem step_walk_all {plan : Plan Key} {job : Nat} {state : State} (idle : state.jobs job = []) :
    step http pathHash state (.walk job .all plan) = some (walked plan job state, []) :=
  if_pos idle

theorem liveRows_remove {inner middle : Inner} {key : Key} {entry : Entry}
    (removed : inner.remove key = some (entry, middle)) :
    (liveRows http inner.entries).Perm (flush http entry ++ liveRows http middle.entries) := by
  obtain ⟨found, rfl⟩ := remove_eq_some.mp removed
  exact Lib.total_erase _ found

theorem snapshot_all (plan : Plan Key) (now : Instant) (inner : Inner) {key : Key}
    (present : (inner.entries.lookup key).isSome = true) : key ∈ snapshot plan now inner .all :=
  (plan.perm _).mem_iff.mpr (AList.lookup_isSome.mp present)

/-! ### Enough room -/

variable (http) in
/-- What was held when the walk began is received, queued, made out or still live; it fits into the
channel; the walk has every live key before it. -/
structure Owed (job : Nat) (owed : List AuditEvent) (state : State) : Prop where
  balance : (state.received ++ held http state).Perm owed
  room : (held http state).length ≤ auditQueue
  ahead : ∀ key, (state.inner.entries.lookup key).isSome = true → key ∈ state.jobs job

variable {job : Nat} {owed : List AuditEvent} {state state' last : State} {trace out : List Seen}

/-- What is held may be moved about. -/
theorem Owed.moved (before : Owed http job owed state)
    (received : state'.received = state.received) (same : (held http state').Perm (held http state))
    (ahead : ∀ key, (state'.inner.entries.lookup key).isSome = true → key ∈ state'.jobs job) :
    Owed http job owed state' := by
  refine ⟨?_, ?_, ahead⟩
  · rw [received]
    exact (same.append_left _).trans before.balance
  · rw [same.length_eq]
    exact before.room

theorem Owed.evict {other : Nat} (before : Owed http job owed state)
    (stepped : step http pathHash state (.evict other) = some (state', out)) :
    Owed http job owed state' := by
  obtain ⟨rfl, key, keys, todo, choice⟩ := step_evict stepped
  have kept : ∀ live, live ∈ state.jobs job → live ≠ key →
      live ∈ Function.update state.jobs other keys job := by
    intro live member different
    by_cases same : job = other
    · subst same
      rw [todo] at member
      rw [Function.update_self]
      exact (List.mem_cons.mp member).resolve_left different
    · rw [Function.update_of_ne same]
      exact member
  rcases choice with ⟨absent, rfl⟩ | ⟨entry, inner, removed, rfl⟩
  · refine before.moved rfl (List.Perm.refl _) fun live present => ?_
    refine kept live (before.ahead live present) ?_
    rintro rfl
    unfold Inner.remove at absent
    obtain ⟨entry, found⟩ := Option.isSome_iff_exists.mp present
    rw [found] at absent
    cases absent
  · refine before.moved rfl ?_ fun live present => ?_
    · have left := @liveRows_remove http _ _ _ _ removed
      refine List.perm_iff_count.mpr fun one => ?_
      have counted := left.count_eq one
      show List.count one (state.audit.queue ++ (state.rows ++ flush http entry) ++
        liveRows http inner.entries) =
        List.count one (state.audit.queue ++ state.rows ++ liveRows http state.inner.entries)
      simp only [List.count_append] at counted ⊢
      omega
    · obtain ⟨_, rfl⟩ := remove_eq_some.mp removed
      obtain ⟨value, found⟩ := Option.isSome_iff_exists.mp present
      obtain ⟨different, old⟩ := Lib.lookup_erase_eq_some.mp found
      exact kept live (before.ahead live (by rw [old]; rfl)) different

theorem Owed.record {row : Nat} (before : Owed http job owed state)
    (stepped : step http pathHash state (.record row) = some (state', out)) :
    Owed http job owed state' := by
  obtain ⟨event, waiting, rfl, rfl⟩ := step_record stepped
  obtain ⟨inside, rfl⟩ := List.getElem?_eq_some_iff.mp waiting
  have free : state.audit.queue.length < auditQueue := by
    have room := before.room
    unfold held at room
    rw [List.length_append, List.length_append] at room
    omega
  refine before.moved rfl ?_ before.ahead
  unfold Audit.record
  rw [if_pos free]
  have taken := List.getElem_cons_eraseIdx_perm inside
  refine List.perm_iff_count.mpr fun one => ?_
  have counted := taken.count_eq one
  show List.count one (state.audit.queue ++ [state.rows[row]] ++ state.rows.eraseIdx row ++
    liveRows http state.inner.entries) =
    List.count one (state.audit.queue ++ state.rows ++ liveRows http state.inner.entries)
  simp only [List.count_append, List.count_cons, List.count_nil] at counted ⊢
  omega

theorem Owed.receive {stored : Bool} (before : Owed http job owed state)
    (stepped : step http pathHash state (.receive stored) = some (state', out)) :
    Owed http job owed state' := by
  obtain ⟨event, queue, waiting, rfl, rfl⟩ := step_receive stepped
  have shape : held http state = event :: (queue ++ state.rows ++
      liveRows http state.inner.entries) := by
    unfold held
    rw [waiting]
    rfl
  refine ⟨?_, ?_, before.ahead⟩
  · show (state.received ++ [event] ++ (queue ++ state.rows ++
      liveRows http state.inner.entries)).Perm owed
    rw [List.append_assoc, List.singleton_append, ← shape]
    exact before.balance
  · have room := before.room
    rw [shape, List.length_cons] at room
    exact (Nat.le_succ _).trans room

/-- The balance is kept by the flush and by the writer. -/
theorem Owed.run (before : Owed http job owed state)
    (run : Run (step http pathHash) (fun _ label => Draining label) state trace last) :
    Owed http job owed last := by
  induction run with
  | refl => exact before
  | @next _ middle label _ _ _ permitted stepped kept =>
    cases label with
    | evict other => exact kept.evict stepped
    | record row => exact kept.record stepped
    | receive stored => exact kept.receive stepped
    | _ => exact permitted.elim

theorem Finished.held_eq_nil (finished : Finished job last)
    (ahead : ∀ key, (last.inner.entries.lookup key).isSome = true → key ∈ last.jobs job) :
    held http last = [] := by
  have gone : ∀ key, last.inner.entries.lookup key = none := by
    intro key
    cases found : last.inner.entries.lookup key with
    | none => rfl
    | some entry =>
      have member := ahead key (by rw [found]; rfl)
      rw [finished.evicted] at member
      cases member
  unfold held liveRows
  rw [finished.received, finished.recorded, Lib.total_of_absent _ gone]
  rfl

/-- **With room for everything, everything arrives.** -/
theorem delivers_of_room {plan : Plan Key} (room : (held http state).length ≤ auditQueue) :
    Delivers http pathHash plan job state := by
  intro middle out started trace last run finished
  obtain ⟨_, _, rfl⟩ := step_walk started
  have begun : Owed http job (state.received ++ held http state) (walked plan job state) := by
    refine ⟨List.Perm.refl _, room, fun key present => ?_⟩
    show key ∈ Function.update state.jobs job _ job
    rw [Function.update_self]
    exact snapshot_all plan state.now state.inner present
  have kept := begun.run run
  have balance := kept.balance
  rw [finished.held_eq_nil kept.ahead, List.append_nil] at balance
  exact balance

/-! ### Not enough -/

/-- A stretch of the schedule in which the writer receives nothing. -/
structure Unreceived (before after : State) : Prop where
  received : after.received = before.received
  bounded : before.audit.queue.length ≤ auditQueue → after.audit.queue.length ≤ auditQueue

theorem record_bounded (audit : Audit) (event : AuditEvent)
    (bounded : audit.queue.length ≤ auditQueue) :
    (audit.record event).1.queue.length ≤ auditQueue := by
  unfold Audit.record
  by_cases free : audit.queue.length < auditQueue
  · rw [if_pos free]
    show (audit.queue ++ [event]).length ≤ auditQueue
    rw [List.length_append]
    exact free
  · rw [if_neg free]
    exact bounded

variable (http pathHash) in
/-- All rows made out are handed over. -/
theorem record_all (state : State) :
    ∃ trace last, Run (step http pathHash) (fun _ label => Draining label) state trace last ∧
      Unreceived state last ∧ last.rows = [] ∧ last.jobs = state.jobs := by
  obtain ⟨rows, shape⟩ : ∃ rows, state.rows = rows := ⟨_, rfl⟩
  induction rows generalizing state with
  | nil => exact ⟨[], state, .refl, ⟨rfl, id⟩, shape, rfl⟩
  | cons event rows ih =>
    have stepped : step http pathHash state (.record 0) =
        some ({ state with audit := (state.audit.record event).1, rows := rows },
          [.recorded event (state.audit.record event).2]) := by
      simp only [step, shape]
      rfl
    obtain ⟨trace, last, run, quiet, recorded, jobs⟩ :=
      ih { state with audit := (state.audit.record event).1, rows := rows } rfl
    refine ⟨_, last, (Run.single trivial stepped).trans run, ⟨quiet.received, ?_⟩, recorded, jobs⟩
    intro bounded
    exact quiet.bounded (record_bounded state.audit event bounded)

variable (http pathHash) in
/-- One eviction of a walk that is not through. -/
theorem evict_next {key : Key} {keys : List Key} (todo : state.jobs job = key :: keys) :
    ∃ inner rows, step http pathHash state (.evict job) =
      some ({ state with
        inner := inner, jobs := Function.update state.jobs job keys, rows := rows }, []) := by
  cases removed : state.inner.remove key with
  | none => exact ⟨state.inner, state.rows, by simp only [step, todo, removed]⟩
  | some pair =>
    exact ⟨pair.2, state.rows ++ flush http pair.1, by simp only [step, todo, removed]⟩

variable (http pathHash) in
/-- The flush, each entry's rows handed over before the next entry is evicted. -/
theorem flush_all (state : State) :
    ∃ trace last, Run (step http pathHash) (fun _ label => Draining label) state trace last ∧
      Unreceived state last ∧ last.rows = [] ∧ last.jobs job = [] := by
  obtain ⟨keys, todo⟩ : ∃ keys, state.jobs job = keys := ⟨_, rfl⟩
  induction keys generalizing state with
  | nil =>
    obtain ⟨trace, last, run, quiet, recorded, jobs⟩ := record_all http pathHash state
    refine ⟨trace, last, run, quiet, recorded, ?_⟩
    rw [jobs, todo]
  | cons key keys ih =>
    obtain ⟨first, middle, recording, before, _, jobs⟩ :=
      record_all http pathHash state
    rw [← jobs] at todo
    obtain ⟨inner, rows, stepped⟩ := evict_next http pathHash todo
    obtain ⟨trace, last, run, after, recorded, done⟩ :=
      ih { middle with
        inner := inner
        jobs := Function.update middle.jobs job keys
        rows := rows } (Function.update_self ..)
    have permitted : Draining (.evict job) := trivial
    refine ⟨_, last, (recording.next permitted stepped).trans run, ⟨?_, ?_⟩, recorded, done⟩
    · rw [after.received]
      exact before.received
    · intro bounded
      exact after.bounded (before.bounded bounded)

variable (http pathHash) in
/-- The writer receives what is queued. -/
theorem receive_all (state : State) :
    ∃ trace last, Run (step http pathHash) (fun _ label => Draining label) state trace last ∧
      last.received = state.received ++ state.audit.queue ∧ last.audit.queue = [] ∧
      last.rows = state.rows ∧ last.jobs = state.jobs := by
  obtain ⟨queue, waiting⟩ : ∃ queue, state.audit.queue = queue := ⟨_, rfl⟩
  induction queue generalizing state with
  | nil =>
    refine ⟨[], state, .refl, ?_, waiting, rfl, rfl⟩
    rw [waiting, List.append_nil]
  | cons event queue ih =>
    have stepped : step http pathHash state (.receive true) =
        some ({ state with
          audit := { state.audit with queue := queue }
          received := state.received ++ [event] }, []) := by
      simp only [step, waiting]
      rfl
    obtain ⟨trace, last, run, received, empty, rows, jobs⟩ :=
      ih { state with
        audit := { state.audit with queue := queue }
        received := state.received ++ [event] } rfl
    refine ⟨_, last, (Run.single trivial stepped).trans run, ?_, empty, rows, jobs⟩
    rw [received, waiting]
    exact List.append_assoc _ [event] queue

variable (http pathHash) in
/-- A schedule in which the writer comes last: it receives what the channel holds at most. -/
theorem finishes_late (bounded : state.audit.queue.length ≤ auditQueue) :
    ∃ trace last, Run (step http pathHash) (fun _ label => Draining label) state trace last ∧
      Finished job last ∧ last.received.length ≤ state.received.length + auditQueue := by
  obtain ⟨first, middle, flushing, quiet, recorded, done⟩ :=
    flush_all http pathHash state
  obtain ⟨trace, last, run, received, empty, rows, jobs⟩ :=
    receive_all http pathHash middle
  refine ⟨_, last, flushing.trans run, ⟨?_, ?_, empty⟩, ?_⟩
  · rw [jobs, done]
  · rw [rows, recorded]
  · rw [received, List.length_append, quiet.received]
    exact Nat.add_le_add_left (quiet.bounded bounded) _

/-- The channel never holds more than its slots. -/
theorem queue_bounded {allowed : State → Label → Prop}
    (run : Run (step http pathHash) allowed .init trace state) :
    state.audit.queue.length ≤ auditQueue := by
  induction run with
  | refl => exact Nat.zero_le _
  | @next trace state label state' out _ _ stepped ih =>
    cases label with
    | insert key sub cached plan =>
      obtain ⟨_, rfl⟩ := step_insert stepped
      exact ih
    | answer request cached now seen =>
      obtain ⟨_, ⟨inner, _, rfl⟩ | ⟨_, rfl⟩⟩ := step_answer stepped
      · exact ih
      · exact ih
    | walk job scope plan =>
      obtain ⟨_, _, rfl⟩ := step_walk stepped
      exact ih
    | evict job =>
      obtain ⟨_, key, keys, _, ⟨_, rfl⟩ | ⟨entry, inner, _, rfl⟩⟩ := step_evict stepped
      · exact ih
      · exact ih
    | record row =>
      obtain ⟨event, _, _, rfl⟩ := step_record stepped
      exact record_bounded state.audit event ih
    | receive stored =>
      obtain ⟨event, queue, waiting, _, rfl⟩ := step_receive stepped
      rw [waiting] at ih
      exact (Nat.le_succ _).trans ih
    | swap live =>
      cases stepped
      exact ih
    | tick elapsed =>
      cases stepped
      exact ih

/-- **With one row too many, some schedule loses one.** -/
theorem not_delivers {plan : Plan Key} (idle : state.jobs job = [])
    (bounded : state.audit.queue.length ≤ auditQueue)
    (crowded : auditQueue < (held http state).length) :
    ¬ Delivers http pathHash plan job state := by
  intro delivers
  have kept : (walked plan job state).audit.queue.length ≤ auditQueue := bounded
  obtain ⟨trace, last, run, finished, few⟩ := finishes_late http pathHash kept
  have all := (delivers _ _ (step_walk_all idle) trace last run finished).length_eq
  rw [List.length_append] at all
  have same : (walked plan job state).received = state.received := rfl
  rw [same] at few
  omega

theorem length_held (state : State) : (held http state).length =
    state.audit.queue.length + state.rows.length + (liveRows http state.inner.entries).length := by
  unfold held
  rw [List.length_append, List.length_append]

/-- **Everything is delivered, whatever the schedule, exactly when it all fits into the
channel.** -/
theorem delivers_iff {allowed : State → Label → Prop}
    (reachable : Run (step http pathHash) allowed .init trace state) (plan : Plan Key) {job : Nat}
    (idle : state.jobs job = []) :
    Delivers http pathHash plan job state ↔
      state.audit.queue.length + state.rows.length + (liveRows http state.inner.entries).length ≤
        auditQueue := by
  rw [← length_held]
  constructor
  · intro delivers
    by_contra crowded
    exact not_delivers idle (queue_bounded reachable) (not_le.mp crowded) delivers
  · exact delivers_of_room

end Drain

/-! ### Many sessions, one request each -/

namespace Crowd

/-- The key of a session. -/
def key (session : Nat) : Key := ⟨BitVec.ofNat 256 session, "wiki".toList⟩

/-- The data behind each of the entries. -/
def cached : Cached := ⟨Miss.member [], [], true, some 1⟩

/-- The user of all the sessions. -/
def sub : Str := HeaderText.documented.text cached.identity.sub

/-- A request of a session. -/
def request (session : Nat) : Subrequest where
  key := some (key session)
  slug := "wiki".toList
  uri := ['/']
  auditPath := ['/']
  srcIp := none
  requestId := none
  keyed := by
    intro cacheKey same
    rw [← Option.some.inj same]
    rfl

/-- A hash that tells no paths apart. -/
def pathHash : Str → UInt64 := fun _ => 0

/-- The counter of one request. -/
def counter : Counters :=
  (Counters.open ['/'] none 0).fold 0 0

/-- The entry of a session with one counted request. -/
def entry (session : Nat) : Entry :=
  { freshEntry 0 (key session) sub cached with
    counters := (∅ : Assoc Outcome Counters).insert (cached.decision ['/'] 0, none) counter }

/-- The cache with so many sessions, entered one after another. -/
def crowd : Nat → Inner
  | 0 => .default
  | sessions + 1 =>
    { (crowd sessions).enter (key sessions) (entry sessions) with
      entries := (crowd sessions).entries.insert (key sessions) (entry sessions) }

/-- The program with that cache and nothing under way. -/
def state (sessions : Nat) : State :=
  { State.init with inner := crowd sessions }

theorem key_injective {first second : Nat} (small : first < 2 ^ 256) (other : second < 2 ^ 256)
    (same : key first = key second) : first = second := by
  have digests := congrArg (fun key => key.cookie.toNat) same
  unfold key at digests
  rw [BitVec.toNat_ofNat, BitVec.toNat_ofNat, Nat.mod_eq_of_lt small, Nat.mod_eq_of_lt other]
    at digests
  exact digests

theorem crowd_absent {sessions session : Nat} (later : sessions ≤ session)
    (small : session < 2 ^ 256) : (crowd sessions).entries.lookup (key session) = none := by
  induction sessions with
  | zero => rfl
  | succ sessions ih =>
    show ((crowd sessions).entries.insert (key sessions) (entry sessions)).lookup (key session) =
      none
    rw [AList.lookup_insert_ne]
    · exact ih (Nat.le_of_succ_le later)
    · intro same
      have equal := key_injective small (by omega) same
      omega

theorem length_keys {sessions : Nat} (small : sessions < 2 ^ 256) :
    (crowd sessions).entries.keys.length = sessions := by
  induction sessions with
  | zero => rfl
  | succ sessions ih =>
    show ((crowd sessions).entries.insert (key sessions) (entry sessions)).keys.length = _
    have absent : key sessions ∉ (crowd sessions).entries.keys := by
      intro member
      have present := AList.lookup_isSome.mpr member
      rw [crowd_absent (le_refl _) (Nat.lt_of_succ_lt small)] at present
      cases present
    rw [AList.keys_insert, List.erase_of_not_mem absent, List.length_cons,
      ih (Nat.lt_of_succ_lt small)]

theorem length_liveRows {sessions : Nat} (small : sessions < 2 ^ 256) :
    (liveRows HeaderText.documented (crowd sessions).entries).length = sessions := by
  induction sessions with
  | zero => rfl
  | succ sessions ih =>
    show (liveRows _ ((crowd sessions).entries.insert (key sessions) (entry sessions))).length = _
    unfold liveRows
    rw [Lib.total_insert, Lib.erase_of_absent (crowd_absent (le_refl _) (Nat.lt_of_succ_lt small)),
      List.length_append]
    have rest := ih (Nat.lt_of_succ_lt small)
    unfold liveRows at rest
    rw [rest, Nat.add_comm]
    rfl

theorem length_held_state {sessions : Nat} (small : sessions < 2 ^ 256) :
    (held HeaderText.documented (state sessions)).length = sessions := by
  rw [length_held]
  show 0 + 0 + (liveRows _ (crowd sessions).entries).length = sessions
  rw [length_liveRows small, Nat.zero_add]

theorem step_fill {sessions : Nat} (room : sessions < capacity) :
    step HeaderText.documented pathHash (state sessions)
        (.insert (key sessions) sub cached (Plan.table Key)) =
      some ({ State.init with
        inner := (crowd sessions).enter (key sessions) (freshEntry 0 (key sessions) sub cached) },
        []) := by
  have small : sessions < 2 ^ 256 := lt_trans room (by decide)
  have placed := @insert_of_room (Plan.table Key) 0 (crowd sessions) (key sessions) sub cached
    (crowd_absent (le_refl _) small) (by rwa [length_keys small])
  show some ({ State.init with
    inner := (insert (Plan.table Key) 0 (crowd sessions) (key sessions) sub cached).1
    rows := [] ++ (insert (Plan.table Key) 0 (crowd sessions) (key sessions) sub
      cached).2.flatMap (flush HeaderText.documented) }, []) = _
  rw [placed]
  rfl

theorem step_count (sessions : Nat) :
    step HeaderText.documented pathHash { State.init with
        inner := (crowd sessions).enter (key sessions) (freshEntry 0 (key sessions) sub cached) }
        (.answer (request sessions) cached 0 0) =
      some (state (sessions + 1),
        [.took (takenOf HeaderText.documented (request sessions) cached 0 0)]) := by
  have done : counted pathHash
      ((crowd sessions).enter (key sessions) (freshEntry 0 (key sessions) sub cached))
      (request sessions) cached 0 0 = some (crowd (sessions + 1)) := by
    show count pathHash _ (key sessions) (cached.decision ['/'] 0) ['/'] none none 0 = _
    unfold count
    rw [show ((crowd sessions).enter (key sessions)
      (freshEntry 0 (key sessions) sub cached)).entries.lookup (key sessions) =
        some (freshEntry 0 (key sessions) sub cached) from AList.lookup_insert _]
    show some (⟨((crowd sessions).entries.insert (key sessions)
      (freshEntry 0 (key sessions) sub cached)).insert (key sessions) (entry sessions),
        _⟩ : Inner) = _
    rw [AList.insert_insert]
    rfl
  simp only [step, done]
  rfl

theorem run_crowd {sessions : Nat} (room : sessions ≤ capacity) :
    ∃ trace, Run (step HeaderText.documented pathHash) (fun _ _ => True) .init trace
      (state sessions) := by
  induction sessions with
  | zero => exact ⟨[], .refl⟩
  | succ sessions ih =>
    obtain ⟨trace, run⟩ := ih (Nat.le_of_succ_le room)
    exact ⟨_, (run.next trivial (step_fill room)).next trivial (step_count sessions)⟩

end Crowd

open Crowd in
/-- As many summaries as the channel has room for arrive, whatever the schedule. -/
theorem delivers_full :
    Delivers HeaderText.documented pathHash (Plan.table Key) 0 (state 1024) := by
  obtain ⟨trace, run⟩ := @run_crowd 1024 (by decide)
  refine (delivers_iff run (Plan.table Key) rfl).mpr ?_
  rw [← length_held, length_held_state (by decide)]
  exact le_refl _

open Crowd in
/-- **A shutdown with 1025 sessions in the cache can lose a summary**, with nothing else under
way. -/
theorem flush_loses :
    ∃ trace state, Run (step HeaderText.documented pathHash) (fun _ _ => True) .init trace state ∧
      state.jobs 0 = [] ∧ state.rows = [] ∧ state.audit.queue = [] ∧
      state.inner.entries.keys.length = 1025 ∧
      ¬ Delivers HeaderText.documented pathHash (Plan.table Key) 0 state := by
  obtain ⟨trace, run⟩ := @run_crowd 1025 (by decide)
  have crowded : auditQueue < (held HeaderText.documented (state 1025)).length := by
    rw [length_held_state (by decide)]
    decide
  exact ⟨trace, state 1025, run, rfl, rfl, rfl, length_keys (by decide),
    not_delivers rfl (Nat.zero_le _) crowded⟩

end OpenBerat.Cache
