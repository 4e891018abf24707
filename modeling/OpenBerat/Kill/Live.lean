/-
**Who is signed in.**

`Index::live` walks the index with `SCAN` and asks of every entry how many of its session keys still
exist. Other clients of Redis go on meanwhile, between any two of its commands. `SCAN` keeps its
contract: what it returns exists, and by the end it has returned every key that has been there all
along.

* `Sound`: what has been found, and what is still to be visited.
* `live_between`: a sub with sessions all along is found with at least these; a sub that is found
  has had as many as are counted; and none is found twice.
-/

import Mathlib.Data.Finset.Card
import OpenBerat.Lib.Run
import OpenBerat.Text

namespace OpenBerat.Live

open Lib (Run logged logged_eq_some)

/-! ### Redis -/

/-- What the walk can see of Redis. -/
structure Redis where
  /-- The members of the set under a key; a set without members is no key. -/
  sets : Str → Finset Str
  /-- The keys of other values. -/
  strings : Finset Str

/-- `EXISTS` on one key. -/
def Redis.present (redis : Redis) (key : Str) : Bool :=
  key ∈ redis.strings ∨ redis.sets key ≠ ∅

/-- `INDEX_PREFIX`. -/
def indexPrefix : Str :=
  "openberat:sessions:".toList

/-- `index_key`. -/
def indexKey (sub : Str) : Str :=
  indexPrefix ++ sub

/-- `EXISTS` on several keys: how many there are. -/
def Redis.alive (redis : Redis) (keys : Finset Str) : Nat :=
  (keys.filter fun key => redis.present key = true).card

/-! ### The walk -/

/-- Where the walk stands: before a `SCAN`, before the `SMEMBERS` of the next key of a batch, before
the `EXISTS` on the members. -/
inductive Stage
  | scanning
  | visiting (keys : List Str) (last : Bool)
  | counting (sub : Str) (members : Finset Str) (keys : List Str) (last : Bool)
  | returned
  | failed

/-- Redis, where the walk stands, and what it has found. -/
structure State where
  redis : Redis
  stage : Stage
  found : List (Str × Nat)

/-- A command of the walk with its answer, or what other clients do in between. -/
inductive Label
  /-- Another client. -/
  | other (redis : Redis)
  | scan (keys : List Str) (next : Nat)
  | smembers
  | count
  | fail

/-- What a run shows. -/
inductive Event
  | changed (redis : Redis)
  | batch (keys : List Str)

/-- The walk before its first `SCAN`. -/
def State.init (redis : Redis) : State :=
  ⟨redis, .scanning, []⟩

/-- `found.insert(sub, alive)`. -/
def insertFound (found : List (Str × Nat)) (sub : Str) (alive : Nat) : List (Str × Nat) :=
  (sub, alive) :: found.filter fun entry => entry.1 ≠ sub

/-- After the last key of a batch: the next `SCAN`, or the end. -/
def resume (keys : List Str) (last : Bool) : Stage :=
  match keys with
  | [] => if last then .returned else .scanning
  | key :: keys => .visiting (key :: keys) last

/-- One step, and what it shows. -/
def step (state : State) : Label → Option (State × List Event)
  | .other redis => some ({ state with redis := redis }, [.changed redis])
  | .scan keys next =>
    match state.stage with
    | .scanning => some ({ state with stage := resume keys (next = 0) }, [.batch keys])
    | _ => none
  | .smembers =>
    match state.stage with
    | .visiting (key :: keys) last =>
      match stripPrefix indexPrefix key with
      | none => some ({ state with stage := resume keys last }, [])
      | some sub =>
        -- `SMEMBERS` on a value of another type is an error.
        if key ∈ state.redis.strings then some ({ state with stage := .failed }, [])
        else if state.redis.sets key = ∅ then some ({ state with stage := resume keys last }, [])
        else some ({ state with stage := .counting sub (state.redis.sets key) keys last }, [])
    | _ => none
  | .count =>
    match state.stage with
    | .counting sub members keys last =>
      let alive := state.redis.alive members
      some ({ state with
        stage := resume keys last
        found := if 0 < alive then insertFound state.found sub alive else state.found }, [])
    | _ => none
  | .fail => some ({ state with stage := .failed }, [])

/-! ### The contract of `SCAN` -/

/-- The states of Redis since the start, the present one last. -/
def moments (start : Redis) (past : List Event) : List Redis :=
  start :: past.filterMap fun event => match event with
    | .changed redis => some redis
    | .batch _ => none

/-- The keys that have been returned. -/
def returned (past : List Event) : List Str :=
  past.flatMap fun event => match event with
    | .changed _ => []
    | .batch keys => keys

/-- What `SCAN` returns exists and matches the pattern, and with its last answer every key that
matches and has been there all along has been returned. -/
def Contract (start : Redis) : List Event × State → Label → Prop
  | (past, state), .scan keys next =>
    (∀ key ∈ keys, indexPrefix <+: key ∧ state.redis.present key = true) ∧
      (next = 0 → ∀ key, indexPrefix <+: key →
        (∀ moment ∈ moments start past, moment.present key = true) → key ∈ returned past ++ keys)
  | _, _ => True

/-! ### What is known of the walk -/

section Walk

variable {start : Redis} {past : List Event} {state : State}

/-- These sessions of the sub are in its entry and exist at every moment. -/
def Steady (start : Redis) (past : List Event) (sub : Str) (sessions : Finset Str) : Prop :=
  sessions.Nonempty ∧ ∀ moment ∈ moments start past, ∀ session ∈ sessions,
    session ∈ moment.sets (indexKey sub) ∧ moment.present session = true

/-- At some moment this many exist of the keys that were in the entry then or before. -/
def Counted (start : Redis) (past : List Event) (sub : Str) (alive : Nat) : Prop :=
  ∃ before now after, moments start past = before ++ now :: after ∧
    ∃ earlier ∈ before ++ [now], alive = now.alive (earlier.sets (indexKey sub))

/-- The walk has still to come to the key. -/
def Stage.awaits (key : Str) : Stage → Prop
  | .visiting keys _ => key ∈ keys
  | .counting sub _ keys _ => key = indexKey sub ∨ key ∈ keys
  | _ => False

/-- `SCAN` has given its last answer. -/
def Stage.final : Stage → Bool
  | .visiting _ last => last
  | .counting _ _ _ last => last
  | .returned => true
  | _ => false

/-- **What the walk keeps**: it has counted what was there, and missed nothing that was there all
along. -/
structure Sound (start : Redis) (past : List Event) (state : State) : Prop where
  present : ∃ before, moments start past = before ++ [state.redis]
  once : (state.found.map Prod.fst).Nodup
  counted : ∀ entry ∈ state.found, 0 < entry.2 ∧ Counted start past entry.1 entry.2
  members : ∀ sub members keys last, state.stage = .counting sub members keys last →
    ∃ moment ∈ moments start past, members = moment.sets (indexKey sub)
  covered : state.stage ≠ .failed → ∀ sub sessions, Steady start past sub sessions →
    indexKey sub ∈ returned past →
      state.stage.awaits (indexKey sub) ∨ ∃ alive,
        (sub, alive) ∈ state.found ∧ sessions.card ≤ alive
  complete : state.stage.final = true → ∀ key, indexPrefix <+: key →
    (∀ moment ∈ moments start past, moment.present key = true) → key ∈ returned past

@[simp]
theorem moments_changed (redis : Redis) :
    moments start (past ++ [.changed redis]) = moments start past ++ [redis] := by
  unfold moments
  rw [List.filterMap_append]
  rfl

@[simp]
theorem moments_batch (keys : List Str) :
    moments start (past ++ [.batch keys]) = moments start past := by
  unfold moments
  rw [List.filterMap_append]
  exact congrArg _ (List.append_nil _)

@[simp]
theorem returned_changed (redis : Redis) : returned (past ++ [.changed redis]) = returned past := by
  unfold returned
  rw [List.flatMap_append]
  exact List.append_nil _

@[simp]
theorem returned_batch (keys : List Str) :
    returned (past ++ [.batch keys]) = returned past ++ keys := by
  unfold returned
  rw [List.flatMap_append, List.flatMap_singleton]

theorem awaits_resume {keys : List Str} {last : Bool} {key : Str} :
    (resume keys last).awaits key ↔ key ∈ keys := by
  cases keys with
  | nil =>
    refine iff_of_false ?_ List.not_mem_nil
    cases last with
    | true => exact id
    | false => exact id
  | cons first keys => exact Iff.rfl

theorem final_resume {keys : List Str} {last : Bool} : (resume keys last).final = last := by
  cases keys with
  | nil =>
    cases last with
    | true => rfl
    | false => rfl
  | cons first keys => rfl

theorem resume_ne_counting {keys rest : List Str} {last again : Bool} {sub : Str}
    {members : Finset Str} :
    resume keys last ≠ .counting sub members rest again := by
  cases keys with
  | nil =>
    cases last with
    | true => exact fun same => nomatch same
    | false => exact fun same => nomatch same
  | cons first keys => exact fun same => nomatch same

theorem indexKey_inj {first second : Str} (same : indexKey first = indexKey second) :
    first = second :=
  List.append_cancel_left same

theorem mem_insertFound {found : List (Str × Nat)} {sub : Str} {alive : Nat} {entry : Str × Nat} :
    entry ∈ insertFound found sub alive ↔ entry = (sub, alive) ∨ entry ∈ found ∧ entry.1 ≠ sub := by
  unfold insertFound
  rw [List.mem_cons, List.mem_filter, decide_eq_true_eq]

theorem insertFound_once {found : List (Str × Nat)} {sub : Str} {alive : Nat}
    (once : (found.map Prod.fst).Nodup) : ((insertFound found sub alive).map Prod.fst).Nodup := by
  unfold insertFound
  rw [List.map_cons, List.nodup_cons]
  refine ⟨fun member => ?_, once.sublist (List.filter_sublist.map _)⟩
  obtain ⟨entry, inside, same⟩ := List.mem_map.mp member
  exact of_decide_eq_true (List.mem_filter.mp inside).2 same

/-- The walk goes on over the rest of the batch, and nothing has been found. -/
theorem Sound.resume (sound : Sound start past state) {key : Str} {keys : List Str} {last : Bool}
    (visiting : state.stage = .visiting (key :: keys) last)
    (empty : ∀ sub sessions, key = indexKey sub → ¬ Steady start past sub sessions) :
    Sound start past { state with stage := Live.resume keys last } where
  present := sound.present
  once := sound.once
  counted := sound.counted
  members _ _ _ _ same := absurd same resume_ne_counting
  covered _ sub sessions steady member := by
    have before :=
      sound.covered (by rw [visiting]; exact fun same => nomatch same) sub sessions steady member
    rw [visiting] at before
    rcases before with waits | found
    · rcases List.mem_cons.mp waits with here | later
      · exact absurd steady (empty sub sessions here.symm)
      · exact Or.inl (awaits_resume.mpr later)
    · exact Or.inr found
  complete final := sound.complete (by rw [visiting]; exact final_resume.symm.trans final)

theorem sound_init : Sound start [] (.init start) where
  present := ⟨[], rfl⟩
  once := .nil
  counted _ member := nomatch member
  members _ _ _ _ same := nomatch same
  covered _ _ _ _ member := nomatch member
  complete final := nomatch final

theorem Steady.before {sub : Str} {sessions : Finset Str} {event : Event}
    (steady : Steady start (past ++ [event]) sub sessions) : Steady start past sub sessions := by
  refine ⟨steady.1, fun moment member => steady.2 moment ?_⟩
  cases event with
  | changed redis =>
    rw [moments_changed]
    exact List.mem_append_left _ member
  | batch keys =>
    rw [moments_batch]
    exact member

/-- Another client's step. -/
theorem sound_other (redis : Redis) (sound : Sound start past state) :
    Sound start (past ++ [.changed redis]) { state with redis := redis } where
  present := ⟨_, moments_changed redis⟩
  once := sound.once
  counted entry member := by
    obtain ⟨some, before, now, after, shape, earlier⟩ := sound.counted entry member
    refine ⟨some, before, now, after ++ [redis], ?_, earlier⟩
    rw [moments_changed, shape, List.append_assoc, List.cons_append]
  members sub members keys last same := by
    obtain ⟨moment, member, listed⟩ := sound.members sub members keys last same
    exact ⟨moment, by rw [moments_changed]; exact List.mem_append_left _ member, listed⟩
  covered running sub sessions steady member := by
    rw [returned_changed] at member
    exact sound.covered running sub sessions steady.before member
  complete final key matches' always := by
    rw [returned_changed]
    refine sound.complete final key matches' fun moment member => always moment ?_
    rw [moments_changed]
    exact List.mem_append_left _ member

/-- A batch. -/
theorem sound_scan {keys : List Str} {next : Nat} (sound : Sound start past state)
    (scanning : state.stage = .scanning)
    (contract : Contract start (past, state) (.scan keys next)) :
    Sound start (past ++ [.batch keys]) { state with stage := resume keys (next = 0) } where
  present := by
    rw [moments_batch]
    exact sound.present
  once := sound.once
  counted entry member := by
    unfold Counted
    rw [moments_batch]
    exact sound.counted entry member
  members _ _ _ _ same := absurd same resume_ne_counting
  covered _ sub sessions steady member := by
    rw [returned_batch] at member
    rcases List.mem_append.mp member with earlier | here
    · have before := sound.covered (by rw [scanning]; exact fun same => nomatch same) sub sessions
        steady.before earlier
      rw [scanning] at before
      exact Or.inr (before.resolve_left id)
    · exact Or.inl (awaits_resume.mpr here)
  complete final key matches' always := by
    rw [returned_batch]
    rw [moments_batch] at always
    exact contract.2 (of_decide_eq_true (final_resume.symm.trans final)) key matches' always

/-- The members of an entry. -/
theorem sound_smembers {sub : Str} {keys : List Str} {last : Bool} (sound : Sound start past state)
    (visiting : state.stage = .visiting (indexKey sub :: keys) last) :
    Sound start past
      { state with stage := .counting sub (state.redis.sets (indexKey sub)) keys last } where
  present := sound.present
  once := sound.once
  counted := sound.counted
  members _ _ _ _ same := by
    obtain ⟨before, shape⟩ := sound.present
    cases same
    exact ⟨state.redis, by rw [shape]; exact List.mem_append_right _ List.mem_cons_self, rfl⟩
  covered _ other sessions steady member := by
    have before :=
      sound.covered (by rw [visiting]; exact fun same => nomatch same) other sessions steady
      member
    rw [visiting] at before
    exact before.imp_left List.mem_cons.mp
  complete final := sound.complete (by rw [visiting]; exact final)

/-- The count of an entry. -/
theorem sound_count {sub : Str} {members : Finset Str} {keys : List Str} {last : Bool}
    (sound : Sound start past state) (counting : state.stage = .counting sub members keys last) :
    Sound start past { state with
      stage := resume keys last
      found := if 0 < state.redis.alive members then
        insertFound state.found sub (state.redis.alive members) else state.found } where
  present := sound.present
  once := by
    dsimp only
    split
    · exact insertFound_once sound.once
    · exact sound.once
  counted entry member := by
    dsimp only at member
    split at member
    · rename_i some
      rcases mem_insertFound.mp member with rfl | ⟨old, _⟩
      · obtain ⟨before, shape⟩ := sound.present
        obtain ⟨moment, inside, listed⟩ := sound.members sub members keys last counting
        exact ⟨some, before, state.redis, [], shape, moment, shape ▸ inside, by rw [← listed]⟩
      · exact sound.counted entry old
    · exact sound.counted entry member
  members _ _ _ _ same := absurd same resume_ne_counting
  covered _ other sessions steady member := by
    have before :=
      sound.covered (by rw [counting]; exact fun same => nomatch same) other sessions steady
      member
    rw [counting] at before
    obtain ⟨moment, inside, listed⟩ := sound.members sub members keys last counting
    obtain ⟨earlier, shape⟩ := sound.present
    have now : state.redis ∈ moments start past := by
      rw [shape]
      exact List.mem_append_right _ List.mem_cons_self
    have enough : other = sub → sessions.card ≤ state.redis.alive members := by
      rintro rfl
      refine Finset.card_le_card fun session chosen => Finset.mem_filter.mpr ⟨?_, ?_⟩
      · rw [listed]
        exact (steady.2 moment inside session chosen).1
      · exact (steady.2 _ now session chosen).2
    rcases before with (same | waits) | ⟨alive, found, bound⟩
    · obtain rfl := indexKey_inj same
      have some : 0 < state.redis.alive members :=
        (Finset.card_pos.mpr steady.1).trans_le (enough rfl)
      refine Or.inr ⟨_, ?_, enough rfl⟩
      rw [if_pos some]
      exact mem_insertFound.mpr (Or.inl rfl)
    · exact Or.inl (awaits_resume.mpr waits)
    · by_cases same : other = sub
      · have some : 0 < state.redis.alive members :=
          (Finset.card_pos.mpr steady.1).trans_le (enough same)
        refine Or.inr ⟨_, ?_, enough same⟩
        rw [if_pos some, same]
        exact mem_insertFound.mpr (Or.inl rfl)
      · refine Or.inr ⟨alive, ?_, bound⟩
        dsimp only
        split
        · exact mem_insertFound.mpr (Or.inr ⟨found, same⟩)
        · exact found
  complete final := sound.complete (by rw [counting]; exact final_resume.symm.trans final)

theorem sound_failed (sound : Sound start past state) :
    Sound start past { state with stage := .failed } where
  present := sound.present
  once := sound.once
  counted := sound.counted
  members _ _ _ _ same := nomatch same
  covered running := absurd rfl running
  complete final := nomatch final

theorem sound_step {label : Label} {next : State} {out : List Event}
    (sound : Sound start past state) (contract : Contract start (past, state) label)
    (stepped : step state label = some (next, out)) :
    Sound start (past ++ out) next := by
  cases label with
  | other redis =>
    cases stepped
    exact sound_other redis sound
  | scan keys cursor =>
    cases scanning : state.stage with
    | scanning =>
      simp only [step, scanning] at stepped
      cases stepped
      exact sound_scan sound scanning contract
    | _ =>
      simp only [step, scanning] at stepped
      cases stepped
  | smembers =>
    cases visiting : state.stage with
    | visiting keys last =>
      cases keys with
      | nil =>
        simp only [step, visiting] at stepped
        cases stepped
      | cons key keys =>
        simp only [step, visiting] at stepped
        cases stripped : stripPrefix indexPrefix key with
        | none =>
          rw [stripped] at stepped
          cases stepped
          rw [List.append_nil]
          refine sound.resume visiting ?_
          rintro sub _ rfl
          have own : stripPrefix indexPrefix (indexKey sub) = some sub :=
            stripPrefix_eq_some.mpr rfl
          rw [own] at stripped
          cases stripped
        | some sub =>
          rw [stripped] at stepped
          obtain rfl : key = indexKey sub := stripPrefix_eq_some.mp stripped
          dsimp only at stepped
          split_ifs at stepped with other empty
          · cases stepped
            rw [List.append_nil]
            exact sound_failed sound
          · cases stepped
            rw [List.append_nil]
            refine sound.resume visiting fun again sessions same steady => ?_
            -- A steady session would be a member now.
            obtain rfl := indexKey_inj same
            obtain ⟨session, chosen⟩ := steady.1
            obtain ⟨before, shape⟩ := sound.present
            have inside := (steady.2 state.redis
              (by rw [shape]; exact List.mem_append_right _ List.mem_cons_self) session chosen).1
            rw [empty] at inside
            cases inside
          · cases stepped
            rw [List.append_nil]
            exact sound_smembers sound visiting
    | _ =>
      simp only [step, visiting] at stepped
      cases stepped
  | count =>
    cases counting : state.stage with
    | counting sub members keys last =>
      simp only [step, counting] at stepped
      cases stepped
      rw [List.append_nil]
      exact sound_count sound counting
    | _ =>
      simp only [step, counting] at stepped
      cases stepped
  | fail =>
    cases stepped
    rw [List.append_nil]
    exact sound_failed sound

/-- **The list is true of the time it took.** Every sub with some sessions that are in its entry and
exist all along is listed, with at least these; every sub that is listed has had, at some moment, as
many sessions of its entry as are counted, and not none; and no sub is listed twice. -/
theorem live_between (start : Redis)
    (run : Run (logged step) (Contract start) ([], State.init start) past (past, state))
    (done : state.stage = .returned) :
    (∀ sub sessions, Steady start past sub sessions →
      ∃ alive, (sub, alive) ∈ state.found ∧ sessions.card ≤ alive) ∧
    (∀ entry ∈ state.found, 0 < entry.2 ∧ Counted start past entry.1 entry.2) ∧
    (state.found.map Prod.fst).Nodup := by
  have sound : Sound start past state := by
    refine (@Run.invariant _ _ _ _ _ _ (fun trace pair => trace = pair.1 ∧
      Sound start pair.1 pair.2)
      ⟨rfl, sound_init⟩ ?_ _ _ run).2
    rintro trace ⟨past, state⟩ label next out ⟨rfl, sound⟩ contract stepped
    obtain ⟨after, moved, rfl⟩ := logged_eq_some.mp stepped
    exact ⟨rfl, sound_step sound contract moved⟩
  refine ⟨fun sub sessions steady => ?_, sound.counted, sound.once⟩
  obtain ⟨session, chosen⟩ := steady.1
  -- The entry has members all along, so `SCAN` has returned it.
  have listed : indexKey sub ∈ returned past := by
    refine sound.complete (by rw [done]; rfl) _ (List.prefix_append _ _) fun moment member => ?_
    refine decide_eq_true (Or.inr fun empty => ?_)
    have inside := (steady.2 moment member session chosen).1
    rw [empty] at inside
    cases inside
  have covered :=
    sound.covered (by rw [done]; exact fun same => nomatch same) sub sessions steady listed
  rw [done] at covered
  exact covered.resolve_left id

end Walk

/-! ### One sub, one session -/

namespace Signed

/-- A user. -/
def sub : Str := "u1".toList

/-- The user's session. -/
def session : Str := "_oauth2_proxy-a".toList

/-- Redis with that session in its entry. -/
def redis : Redis where
  sets key := if key = indexKey sub then {session} else ∅
  strings := {session}

theorem sets_own : redis.sets (indexKey sub) = {session} := by
  show (if indexKey sub = indexKey sub then ({session} : Finset Str) else ∅) = {session}
  exact if_pos rfl

theorem present_own : redis.present (indexKey sub) = true := by
  refine decide_eq_true (Or.inr ?_)
  rw [sets_own]
  exact Finset.singleton_ne_empty session

theorem alive_own : redis.alive {session} = 1 := by
  have present : redis.present session = true :=
    decide_eq_true (Or.inl (Finset.mem_singleton_self session))
  unfold Redis.alive
  rw [Finset.filter_singleton, if_pos present, Finset.card_singleton]

/-- The one key is all that has ever been there. -/
theorem contract : Contract redis ([], .init redis) (.scan [indexKey sub] 0) := by
  refine ⟨fun key member => ?_, fun _ key matches' always => ?_⟩
  · obtain rfl := List.mem_singleton.mp member
    exact ⟨List.prefix_append _ _, present_own⟩
  · refine List.mem_singleton.mpr ?_
    have present := always redis List.mem_cons_self
    rcases of_decide_eq_true present with text | filled
    · obtain rfl := Finset.mem_singleton.mp text
      exact absurd matches' (by decide +kernel)
    · by_contra other
      exact filled (if_neg other)

theorem run : Run (logged step) (Contract redis) ([], .init redis) [.batch [indexKey sub]]
    ([.batch [indexKey sub]], ⟨redis, .returned, [(sub, 1)]⟩) := by
  have stripped : stripPrefix indexPrefix (indexKey sub) = some sub := stripPrefix_eq_some.mpr rfl
  have scanned : step (.init redis) (.scan [indexKey sub] 0) =
      some (⟨redis, .visiting [indexKey sub] true, []⟩, [.batch [indexKey sub]]) := rfl
  have listed : step ⟨redis, .visiting [indexKey sub] true, []⟩ .smembers =
      some (⟨redis, .counting sub {session} [] true, []⟩, []) := by
    have other : indexKey sub ∉ redis.strings := by decide +kernel
    simp only [step, stripped, if_neg other, sets_own, if_neg (Finset.singleton_ne_empty session)]
  have counted : step ⟨redis, .counting sub {session} [] true, []⟩ .count =
      some (⟨redis, .returned, [(sub, 1)]⟩, []) := by
    simp only [step, alive_own]
    rfl
  have first := Run.single contract (logged_eq_some.mpr ⟨_, scanned, rfl⟩)
  have second := first.next (show Contract redis _ .smembers from trivial)
    (logged_eq_some.mpr ⟨_, listed, rfl⟩)
  exact second.next (show Contract redis _ .count from trivial)
    (logged_eq_some.mpr ⟨_, counted, rfl⟩)

theorem steady : Steady redis [.batch [indexKey sub]] sub {session} := by
  refine ⟨Finset.singleton_nonempty session, fun moment member other chosen => ?_⟩
  obtain rfl := List.mem_singleton.mp member
  obtain rfl := Finset.mem_singleton.mp chosen
  rw [sets_own]
  exact ⟨Finset.mem_singleton_self _, decide_eq_true (Or.inl (Finset.mem_singleton_self _))⟩

end Signed

end OpenBerat.Live
