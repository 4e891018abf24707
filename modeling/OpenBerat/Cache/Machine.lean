/-
**One process: the cache, the audit channel and its writer.**

Every step is one critical section of the source: an operation under the lock, one row handed to
`Audit::record`, one receive of the writer. A sweep, a dropped subject and a flush are jobs: a
snapshot of keys, and then one eviction a key, with any other step in between.

* `step_insert`, `step_answer`, `step_walk`, `step_evict`, `step_record`, `step_receive`: what one
  step can do, guards included.
* `audit_exact`: over any run, the rows the channel took are the rows the writer has received plus
  the rows still queued, in order, and every row refused, like every row the database then refused,
  has added one to the counter of dropped rows.
-/

import OpenBerat.Cache.Basic
import OpenBerat.Lib.Run

namespace OpenBerat.Cache

open Lib (Plan Run)

/-- Slots of the audit channel. -/
def auditQueue : Nat := 1024

/-- The channel with its counter of lost rows, an `AtomicU64`. The receiver outlives the senders, so
a send fails on a full channel only. -/
structure Audit where
  queue : List AuditEvent
  dropped : BitVec 64

/-- `Audit::record`, and whether the channel took the row. -/
def Audit.record (audit : Audit) (event : AuditEvent) : Audit × Bool :=
  if audit.queue.length < auditQueue then ({ audit with queue := audit.queue ++ [event] }, true)
  else ({ audit with dropped := audit.dropped + 1 }, false)

/-- What `answer` reads off a request. -/
structure Subrequest where
  key : Option Key
  slug : Str
  uri : Str
  auditPath : Str
  srcIp : Option IpAddr
  requestId : Option Str
  keyed : ∀ cacheKey, key = some cacheKey → cacheKey.slug = slug

/-- The cache, its flag and the audit channel, with the rows and walks under way and the clock. -/
structure State where
  inner : Inner
  subscribed : Bool
  audit : Audit
  /-- Rows that are made out and not yet handed to `record`. -/
  rows : List AuditEvent
  /-- The keys a walk has still to evict. -/
  jobs : Nat → List Key
  now : Instant
  /-- What `write_audit` has received. -/
  received : List AuditEvent

/-- The program as it starts. -/
def State.init : State :=
  { inner := .default
    subscribed := false
    audit := ⟨[], 0⟩
    rows := []
    jobs := fun _ => []
    now := 0
    received := [] }

/-- What can happen, one critical section or one send at a time. -/
inductive Label
  | insert (key : Key) (sub : Str) (cached : Cached) (plan : Plan Key)
  | answer (request : Subrequest) (cached : Cached) (now seen : DateTime)
  | walk (job : Nat) (scope : Scope) (plan : Plan Key)
  | evict (job : Nat)
  | record (row : Nat)
  | receive (stored : Bool)
  | swap (live : Bool)
  | tick (elapsed : Nat)

/-- A decision `answer` has taken. -/
structure Taken where
  sub : Str
  slug : Str
  decision : Decision
  srcIp : Option IpAddr
  path : Str
  requestId : Option Str
  seen : DateTime
  deriving DecidableEq

/-- What a run shows: the decisions taken, the rows handed to `record`, the rows whose statement
failed. -/
inductive Seen
  | took (decision : Taken)
  | recorded (event : AuditEvent) (accepted : Bool)
  | lost (event : AuditEvent)
  deriving DecidableEq

variable (http : HeaderText) (pathHash : Str → UInt64)

/-- The decision of an answer, as the account keeps it. -/
def takenOf (request : Subrequest) (cached : Cached) (now seen : DateTime) : Taken :=
  { sub := http.text cached.identity.sub
    slug := request.slug
    decision := cached.decision request.uri now
    srcIp := request.srcIp
    path := request.auditPath
    requestId := request.requestId
    seen := seen }

/-- The row of a decision that found no entry to be counted in. -/
def ownRow (request : Subrequest) (cached : Cached) (now seen : DateTime) : AuditEvent :=
  { applicationId := cached.applicationId
    applicationSlug := request.slug
    actorSub := http.text cached.identity.sub
    actorName := http.headerString cached.identity.username
    decision := cached.decision request.uri now
    count := 1
    firstSeen := seen
    lastSeen := seen
    distinctPath := 1
    firstPath := request.auditPath
    srcIp := request.srcIp
    requestId := request.requestId }

/-- The cache after `answer` has counted, nothing where it has to write its own row. -/
def counted (inner : Inner) (request : Subrequest) (cached : Cached) (now seen : DateTime) :
    Option Inner :=
  request.key.bind fun key =>
    count pathHash inner key (cached.decision request.uri now) request.auditPath request.srcIp
      request.requestId seen

/-- One step, and what it shows; nothing where there is no such step to take. -/
def step (state : State) : Label → Option (State × List Seen)
  | .insert key sub cached plan =>
    let (inner, leaving) := insert plan state.now state.inner key sub cached
    some ({ state with inner := inner, rows := state.rows ++ leaving.flatMap (flush http) }, [])
  | .answer request cached now seen =>
    match counted pathHash state.inner request cached now seen with
    | some inner =>
      some ({ state with inner := inner }, [.took (takenOf http request cached now seen)])
    | none =>
      some ({ state with rows := state.rows ++ [ownRow http request cached now seen] },
        [.took (takenOf http request cached now seen)])
  | .walk job scope plan =>
    if state.jobs job = [] then
      some ({ state with
        jobs := Function.update state.jobs job (snapshot plan state.now state.inner scope) }, [])
    else none
  | .evict job =>
    match state.jobs job with
    | [] => none
    | key :: keys =>
      let jobs := Function.update state.jobs job keys
      match state.inner.remove key with
      | none => some ({ state with jobs := jobs }, [])
      | some (entry, inner) =>
        some ({ state with inner := inner, jobs := jobs, rows := state.rows ++ flush http entry },
          [])
  | .record row =>
    match state.rows[row]? with
    | none => none
    | some event =>
      let (audit, accepted) := state.audit.record event
      some ({ state with audit := audit, rows := state.rows.eraseIdx row },
        [.recorded event accepted])
  | .receive stored =>
    match state.audit.queue with
    | [] => none
    | event :: queue =>
      some ({ state with
        audit := {
          queue := queue
          dropped := if stored then state.audit.dropped else state.audit.dropped + 1 }
        received := state.received ++ [event] }, if stored then [] else [.lost event])
  | .swap live => some ({ state with subscribed := live }, [])
  | .tick elapsed => some ({ state with now := state.now + elapsed }, [])

/-! ### What one step does -/

variable {http pathHash} {state state' : State} {out : List Seen}

theorem step_insert {key : Key} {sub : Str} {cached : Cached} {plan : Plan Key}
    (stepped : step http pathHash state (.insert key sub cached plan) = some (state', out)) :
    out = [] ∧ state' = { state with
      inner := (insert plan state.now state.inner key sub cached).1
      rows := state.rows ++
        (insert plan state.now state.inner key sub cached).2.flatMap (flush http) } := by
  cases stepped
  exact ⟨rfl, rfl⟩

theorem step_answer {request : Subrequest} {cached : Cached} {now seen : DateTime}
    (stepped : step http pathHash state (.answer request cached now seen) = some (state', out)) :
    out = [.took (takenOf http request cached now seen)] ∧
      ((∃ inner, counted pathHash state.inner request cached now seen = some inner ∧
        state' = { state with inner := inner }) ∨
      (counted pathHash state.inner request cached now seen = none ∧
        state' = { state with rows := state.rows ++ [ownRow http request cached now seen] })) := by
  unfold step at stepped
  cases found : counted pathHash state.inner request cached now seen with
  | none =>
    simp only [found] at stepped
    cases stepped
    exact ⟨rfl, Or.inr ⟨rfl, rfl⟩⟩
  | some inner =>
    simp only [found] at stepped
    cases stepped
    exact ⟨rfl, Or.inl ⟨inner, rfl, rfl⟩⟩

variable (http pathHash) in
/-- An entry can always be inserted. -/
theorem exists_step_insert (state : State) (key : Key) (sub : Str) (cached : Cached)
    (plan : Plan Key) :
    ∃ state', step http pathHash state (.insert key sub cached plan) = some (state', []) :=
  ⟨_, rfl⟩

variable (http pathHash) in
/-- A decision can always be taken. -/
theorem exists_step_answer (state : State) (request : Subrequest) (cached : Cached)
    (now seen : DateTime) : ∃ taken state',
      step http pathHash state (.answer request cached now seen) =
        some (state', [.took taken]) := by
  refine ⟨takenOf http request cached now seen, ?_⟩
  cases found : counted pathHash state.inner request cached now seen with
  | none =>
    refine ⟨{ state with rows := state.rows ++ [ownRow http request cached now seen] }, ?_⟩
    simp only [step, found]
  | some inner =>
    refine ⟨{ state with inner := inner }, ?_⟩
    simp only [step, found]

theorem step_walk {job : Nat} {scope : Scope} {plan : Plan Key}
    (stepped : step http pathHash state (.walk job scope plan) = some (state', out)) :
    out = [] ∧ state.jobs job = [] ∧ state' = { state with
      jobs := Function.update state.jobs job (snapshot plan state.now state.inner scope) } := by
  by_cases idle : state.jobs job = []
  · simp only [step, if_pos idle] at stepped
    cases stepped
    exact ⟨rfl, idle, rfl⟩
  · simp only [step, if_neg idle] at stepped
    cases stepped

theorem step_evict {job : Nat}
    (stepped : step http pathHash state (.evict job) = some (state', out)) :
    out = [] ∧ ∃ key keys, state.jobs job = key :: keys ∧
      ((state.inner.remove key = none ∧
        state' = { state with jobs := Function.update state.jobs job keys }) ∨
      ∃ entry inner, state.inner.remove key = some (entry, inner) ∧
        state' = { state with
          inner := inner
          jobs := Function.update state.jobs job keys
          rows := state.rows ++ flush http entry }) := by
  unfold step at stepped
  cases todo : state.jobs job with
  | nil =>
    simp only [todo] at stepped
    cases stepped
  | cons key keys =>
    simp only [todo] at stepped
    cases removed : state.inner.remove key with
    | none =>
      simp only [removed] at stepped
      cases stepped
      exact ⟨rfl, key, keys, rfl, Or.inl ⟨removed, rfl⟩⟩
    | some pair =>
      obtain ⟨entry, inner⟩ := pair
      simp only [removed] at stepped
      cases stepped
      exact ⟨rfl, key, keys, rfl, Or.inr ⟨entry, inner, removed, rfl⟩⟩

theorem step_record {row : Nat}
    (stepped : step http pathHash state (.record row) = some (state', out)) :
    ∃ event, state.rows[row]? = some event ∧
      out = [.recorded event (state.audit.record event).2] ∧
      state' = { state with
        audit := (state.audit.record event).1
        rows := state.rows.eraseIdx row } := by
  unfold step at stepped
  cases found : state.rows[row]? with
  | none =>
    simp only [found] at stepped
    cases stepped
  | some event =>
    simp only [found] at stepped
    cases stepped
    exact ⟨event, rfl, rfl, rfl⟩

theorem step_receive {stored : Bool}
    (stepped : step http pathHash state (.receive stored) = some (state', out)) :
    ∃ event queue, state.audit.queue = event :: queue ∧
      out = (if stored then [] else [.lost event]) ∧
      state' = { state with
        audit := {
          queue := queue
          dropped := if stored then state.audit.dropped else state.audit.dropped + 1 }
        received := state.received ++ [event] } := by
  unfold step at stepped
  cases waiting : state.audit.queue with
  | nil =>
    simp only [waiting] at stepped
    cases stepped
  | cons event queue =>
    simp only [waiting] at stepped
    cases stepped
    exact ⟨event, queue, rfl, rfl, rfl⟩

/-! ### What a run shows -/

/-- The decisions taken, in order. -/
def decisions (trace : List Seen) : List Taken :=
  trace.filterMap fun
    | .took decision => some decision
    | _ => none

/-- The rows handed to `record`, in order. -/
def events (trace : List Seen) : List AuditEvent :=
  trace.filterMap fun
    | .recorded event _ => some event
    | _ => none

/-- The rows the channel took. -/
def acceptedEvents (trace : List Seen) : List AuditEvent :=
  trace.filterMap fun
    | .recorded event true => some event
    | _ => none

/-- How many rows the channel or the database refused. -/
def losses (trace : List Seen) : Nat :=
  trace.countP fun
    | .recorded _ false => true
    | .lost _ => true
    | _ => false

/-- The channel is exact: nothing it took is lost, and every loss is counted. -/
structure AuditExact (trace : List Seen) (state : State) : Prop where
  accepted : state.received ++ state.audit.queue = acceptedEvents trace
  refused : state.audit.dropped = BitVec.ofNat 64 (losses trace)

theorem AuditExact.quiet {trace : List Seen} {state state' : State}
    (exactly : AuditExact trace state) (audit : state'.audit = state.audit)
    (received : state'.received = state.received) : AuditExact trace state' :=
  ⟨by rw [audit, received, exactly.accepted], by rw [audit, exactly.refused]⟩

theorem AuditExact.took {trace : List Seen} {state : State} (exactly : AuditExact trace state)
    (decision : Taken) : AuditExact (trace ++ [.took decision]) state := by
  refine ⟨?_, ?_⟩
  · rw [exactly.accepted]
    simp [acceptedEvents]
  · rw [exactly.refused]
    simp [losses]

/-- **Every row handed to `record` is taken by the channel or counted as dropped.** -/
theorem audit_exact {allowed : State → Label → Prop} {trace : List Seen} {state : State}
    (run : Run (step http pathHash) allowed .init trace state) : AuditExact trace state := by
  induction run with
  | refl => exact ⟨rfl, rfl⟩
  | @next trace state label state' out _ _ stepped exactly =>
    cases label with
    | insert key sub cached plan =>
      obtain ⟨rfl, rfl⟩ := step_insert stepped
      rw [List.append_nil]
      exact exactly.quiet rfl rfl
    | answer request cached now seen =>
      obtain ⟨rfl, ⟨inner, _, rfl⟩ | ⟨_, rfl⟩⟩ := step_answer stepped
      · exact (exactly.took _).quiet rfl rfl
      · exact (exactly.took _).quiet rfl rfl
    | walk job scope plan =>
      obtain ⟨rfl, _, rfl⟩ := step_walk stepped
      rw [List.append_nil]
      exact exactly.quiet rfl rfl
    | evict job =>
      obtain ⟨rfl, key, keys, _, ⟨_, rfl⟩ | ⟨entry, inner, _, rfl⟩⟩ := step_evict stepped
      · rw [List.append_nil]
        exact exactly.quiet rfl rfl
      · rw [List.append_nil]
        exact exactly.quiet rfl rfl
    | record row =>
      obtain ⟨event, _, rfl, rfl⟩ := step_record stepped
      unfold Audit.record
      by_cases room : state.audit.queue.length < auditQueue
      · rw [if_pos room]
        refine ⟨?_, ?_⟩
        · show state.received ++ (state.audit.queue ++ [event]) = _
          rw [← List.append_assoc, exactly.accepted]
          simp [acceptedEvents]
        · show state.audit.dropped = _
          rw [exactly.refused]
          simp [losses]
      · rw [if_neg room]
        refine ⟨?_, ?_⟩
        · show state.received ++ state.audit.queue = _
          rw [exactly.accepted]
          simp [acceptedEvents]
        · show state.audit.dropped + 1 = _
          rw [exactly.refused]
          simp [losses, BitVec.ofNat_add]
    | receive stored =>
      obtain ⟨event, queue, waiting, rfl, rfl⟩ := step_receive stepped
      have moved : state.received ++ [event] ++ queue = acceptedEvents trace := by
        rw [List.append_assoc, List.singleton_append, ← waiting, exactly.accepted]
      cases stored with
      | true =>
        refine ⟨?_, ?_⟩
        · show state.received ++ [event] ++ queue = acceptedEvents (trace ++ [])
          rw [moved, List.append_nil]
        · show state.audit.dropped = BitVec.ofNat 64 (losses (trace ++ []))
          rw [exactly.refused, List.append_nil]
      | false =>
        refine ⟨?_, ?_⟩
        · show state.received ++ [event] ++ queue = acceptedEvents (trace ++ [.lost event])
          rw [moved]
          simp [acceptedEvents]
        · show state.audit.dropped + 1 = BitVec.ofNat 64 (losses (trace ++ [.lost event]))
          rw [exactly.refused]
          simp [losses, BitVec.ofNat_add]
    | swap live =>
      cases stepped
      rw [List.append_nil]
      exact exactly.quiet rfl rfl
    | tick elapsed =>
      cases stepped
      rw [List.append_nil]
      exact exactly.quiet rfl rfl

end OpenBerat.Cache
