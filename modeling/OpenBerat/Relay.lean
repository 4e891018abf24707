/-
**What a verified answer leaves in the response.**

`Path` is what one request does from some stage on: its moves one after another, each in whatever
state the rest of the instance has brought about by then. Every run of the instance is a path for
each of its requests (`path_of_run`). From oauth2-proxy's answer on there are four ways to a
response, and three of them are refusals that drop the identity and the refreshed cookies.

* `loading_relays`, `indexing_relays`: the exits, from the last one back.
* `relays_iff`: the identity and the cookies are in the response exactly when no exit was taken.
-/

import OpenBerat.Provenance

namespace OpenBerat.Instance

open Decide (AuthResponse Incoming Response authenticate gather refuse)
open Lib (Run)

section Relay

variable {lib : Libraries}

/-- The moves of one request, from a stage to a stage, and the events they show. -/
inductive Path (request : Nat) : Stage lib → List Move → Stage lib → List Event → Prop
  | here (stage : Stage lib) : Path request stage [] stage []
  | move {state : State lib} {stage last : Stage lib} {move : Move} {moved : Moved lib}
      {moves : List Move} {out : List Event} : advance state request move stage = some moved →
      Path request moved.stage moves last out →
      Path request stage (move :: moves) last (moved.out ++ out)

variable {request : Nat} {stage middle last : Stage lib} {moves : List Move} {out : List Event}

theorem Path.concat {state : State lib} {move : Move} {moved : Moved lib}
    (path : Path request stage moves middle out)
    (advanced : advance state request move middle = some moved) :
    Path request stage (moves ++ [move]) moved.stage (out ++ moved.out) := by
  induction path with
  | here =>
    have single := Path.move advanced (.here moved.stage)
    rwa [List.append_nil] at single
  | move first _ ih =>
    rw [List.append_assoc]
    exact .move first (ih advanced)

theorem missed_ne_idle (incoming : Incoming lib) (locked : Bool) :
    missed incoming locked ≠ .idle := by
  cases locked with
  | true => exact fun same => nomatch same
  | false => exact fun same => nomatch same

/-- No request starts over. -/
theorem advance_ne_idle {state : State lib} {move : Move} {moved : Moved lib}
    (advanced : advance state request move stage = some moved) : moved.stage ≠ .idle := by
  cases move with
  | flag =>
    obtain ⟨incoming, locked, _, ⟨_, rfl⟩ | ⟨_, rfl⟩⟩ := advance_flag advanced
    · exact fun same => nomatch same
    · exact missed_ne_idle incoming locked
  | read =>
    obtain ⟨incoming, locked, _, ⟨_, _, _, _, rfl⟩ | ⟨_, rfl⟩⟩ := advance_read advanced
    · exact fun same => nomatch same
    · exact missed_ne_idle incoming locked
  | acquire =>
    obtain ⟨_, _, _, _, _, rfl⟩ := advance_acquire advanced
    exact fun same => nomatch same
  | authenticated response =>
    obtain ⟨_, _, ⟨_, _, _, _, _, rfl⟩ | ⟨_, _, rfl⟩⟩ := advance_authenticated advanced
    · exact fun same => nomatch same
    · exact fun same => nomatch same
  | indexed ok =>
    obtain ⟨_, _, _, _, _, ⟨_, rfl⟩ | ⟨_, rfl⟩⟩ := advance_indexed advanced
    · exact fun same => nomatch same
    · exact fun same => nomatch same
  | loaded query =>
    obtain ⟨_, _, _, _, _, ⟨_, _, rfl⟩ | ⟨_, rfl⟩⟩ := advance_loaded advanced
    · exact fun same => nomatch same
    · exact fun same => nomatch same
  | insert plan =>
    obtain ⟨_, _, _, _, _, ⟨_, rfl⟩ | ⟨_, _, _, _, rfl⟩⟩ := advance_insert advanced
    · exact fun same => nomatch same
    · exact fun same => nomatch same
  | answer now seen =>
    obtain ⟨_, _, _, _, _, _, _, rfl⟩ := advance_answer advanced
    exact fun same => nomatch same
  | cancel =>
    rw [advance_cancel advanced]
    exact fun same => nomatch same

/-- **Every run is a path** for each request that has arrived. -/
theorem path_of_run {allowed : State lib → Label → Prop} {start state : State lib}
    {trace : List Event} (run : Run step allowed start trace state)
    (arrived : start.stages request ≠ .idle) :
    ∃ moves out, Path request (start.stages request) moves (state.stages request) out ∧
      out.Sublist trace ∧ state.stages request ≠ .idle := by
  induction run with
  | refl => exact ⟨[], [], .here _, List.Sublist.refl _, arrived⟩
  | @next trace state label next out _ _ stepped ih =>
    obtain ⟨moves, shown, path, inside, busy⟩ := ih
    have quiet : ∀ {later : Stage lib}, later = state.stages request →
        ∃ moves shown, Path request (start.stages request) moves later shown ∧
          shown.Sublist (trace ++ out) ∧ later ≠ .idle := by
      rintro later rfl
      exact ⟨moves, shown, path, inside.trans (List.sublist_append_left _ _), busy⟩
    cases label with
    | arrive other headers =>
      obtain ⟨idle, ⟨_, _, _, rfl⟩ | ⟨_, _, _, _, _, rfl⟩⟩ := step_arrive stepped
      all_goals
        refine quiet (Function.update_of_ne ?_ _ _)
        rintro rfl
        exact busy idle
    | move other move =>
      obtain ⟨moved, advanced, rfl, rfl⟩ := step_move stepped
      by_cases same : other = request
      · subst same
        have stays : Function.update state.stages other moved.stage other = moved.stage :=
          Function.update_self ..
        refine ⟨moves ++ [move], shown ++ moved.out, ?_, inside.append (List.Sublist.refl _), ?_⟩
        · show Path other _ _ (Function.update state.stages other moved.stage other) _
          rw [stays]
          exact path.concat advanced
        · show Function.update state.stages other moved.stage other ≠ _
          rw [stays]
          exact advance_ne_idle advanced
      · exact quiet (Function.update_of_ne (Ne.symm same) _ _)
    | cache label =>
      obtain ⟨_, _, _, _, _, rfl⟩ := step_cache stepped
      exact quiet rfl

/-! ### The exits, from the last one back -/

/-- The response that the events of a path show. -/
def Replies (out : List Event) (reply : Response) : Prop :=
  ∃ event ∈ out, event.response = some reply

/-- The whole identity and every cookie, in order. -/
def Relayed (identity : Identity) (setCookie : List HeaderValue) (reply : Response) : Prop :=
  reply.identity = some identity ∧ reply.setCookie = setCookie

theorem not_relayed_refuse {identity : Identity} {setCookie : List HeaderValue} (reason : Deny) :
    ¬ Relayed identity setCookie (refuse reason) :=
  fun relayed => nomatch relayed.1

theorem path_done (path : Path request (.done : Stage lib) moves last out) : moves = [] ∧ out =
    [] := by
  cases path with
  | here => exact ⟨rfl, rfl⟩
  | @move _ _ _ move _ _ _ advanced _ => cases move <;> cases advanced

/-- What ends a request is its response. -/
theorem replies_done {event : Event} {reply : Response}
    (path : Path request (.done : Stage lib) moves last out)
    (replies : Replies ([event] ++ out) reply) : moves = [] ∧ event.response = some reply := by
  obtain ⟨rfl, rfl⟩ := path_done path
  obtain ⟨_, member, shown⟩ := replies
  obtain rfl := List.mem_singleton.mp member
  exact ⟨rfl, shown⟩

/-- No answer of the index or the query is among the moves. -/
def Settled (moves : List Move) : Prop :=
  (∀ ok, Move.indexed ok ∉ moves) ∧ ∀ query, Move.loaded query ∉ moves

theorem answering_relays {incoming : Incoming lib} {cached : Cached} {setCookie : List HeaderValue}
    {reply : Response} (path : Path request (.answering incoming cached setCookie) moves last out)
    (replies : Replies out reply) : Relayed cached.identity setCookie reply ∧ Settled moves := by
  cases path with
  | here =>
    obtain ⟨_, member, _⟩ := replies
    cases member
  | @move _ _ _ move _ _ _ advanced rest =>
    cases move with
    | answer now seen =>
      obtain ⟨_, _, _, _, seen, stage, _, rfl⟩ := advance_answer advanced
      cases stage
      obtain ⟨rfl, rfl⟩ := path_done rest
      obtain ⟨event, member, shown⟩ := replies
      rw [List.append_nil] at member
      rcases List.mem_append.mp member with quiet | answer
      · obtain ⟨_, _, rfl⟩ := List.mem_map.mp quiet
        cases shown
      · rw [List.mem_singleton.mp answer] at shown
        cases shown
        exact ⟨⟨rfl, rfl⟩, by simp [Settled]⟩
    | _ => cases advanced

theorem filling_relays {incoming : Incoming lib} {cached : Cached} {setCookie : List HeaderValue}
    {session : Str} {reply : Response}
    (path : Path request (.filling incoming cached setCookie session) moves last out)
    (replies : Replies out reply) : Relayed cached.identity setCookie reply ∧ Settled moves := by
  cases path with
  | here =>
    obtain ⟨_, member, _⟩ := replies
    cases member
  | @move _ _ _ move _ rest later advanced behind =>
    cases move with
    | insert plan =>
      have onward : ∃ cached' setCookie', cached' = cached ∧ setCookie' = setCookie ∧
          Path request (.answering incoming cached' setCookie') rest last later ∧
          Replies later reply := by
        obtain ⟨_, _, _, _, stage, ⟨_, rfl⟩ | ⟨_, _, _, _, rfl⟩⟩ := advance_insert advanced
        · cases stage
          exact ⟨_, _, rfl, rfl, behind, replies⟩
        · cases stage
          obtain ⟨event, member, shown⟩ := replies
          rcases List.mem_cons.mp member with rfl | member
          · cases shown
          · exact ⟨_, _, rfl, rfl, behind, event, member, shown⟩
      obtain ⟨_, _, rfl, rfl, path, replies⟩ := onward
      obtain ⟨relayed, indexed, loaded⟩ := answering_relays path replies
      refine ⟨relayed, fun ok member => ?_, fun query member => ?_⟩
      · rcases List.mem_cons.mp member with same | member
        · cases same
        · exact indexed ok member
      · rcases List.mem_cons.mp member with same | member
        · cases same
        · exact loaded query member
    | _ => cases advanced

/-- Behind the index, the query decides whether the response relays. -/
theorem loading_relays {incoming : Incoming lib} {identity : Identity}
    {setCookie : List HeaderValue} {session : Str} {reply : Response}
    (path : Path request (.loading incoming identity setCookie session) moves last out)
    (replies : Replies out reply) :
    (Relayed identity setCookie reply ↔ ∀ query, Move.loaded query ∈ moves →
      query incoming.request.slug (lib.http.text identity.sub) (groupsOf lib.http identity) ≠
        none) ∧
    ∀ ok, Move.indexed ok ∉ moves := by
  cases path with
  | here =>
    obtain ⟨_, member, _⟩ := replies
    cases member
  | @move _ _ _ move _ rest later advanced behind =>
    cases move with
    | loaded query =>
      obtain ⟨_, _, _, _, stage, ⟨found, answers, rfl⟩ | ⟨fails, rfl⟩⟩ := advance_loaded advanced
      · cases stage
        have onward : Replies later reply := by
          obtain ⟨event, member, shown⟩ := replies
          rcases List.mem_cons.mp member with rfl | member
          · cases shown
          · exact ⟨event, member, shown⟩
        obtain ⟨relayed, indexed, loaded⟩ := filling_relays behind onward
        have same : (cachedOf identity found).identity = identity := by
          cases found with
          | none => rfl
          | some app => rfl
        rw [same] at relayed
        refine ⟨iff_of_true relayed fun other member => ?_, fun ok member => ?_⟩
        · rcases List.mem_cons.mp member with same | member
          · cases same
            rw [answers]
            exact Option.some_ne_none found
          · exact absurd member (loaded other)
        · rcases List.mem_cons.mp member with same | member
          · cases same
          · exact indexed ok member
      · cases stage
        obtain ⟨rfl, shown⟩ := replies_done behind replies
        cases shown
        refine ⟨iff_of_false (not_relayed_refuse _) fun all => ?_, fun ok member => ?_⟩
        · exact all query List.mem_cons_self fails
        · rcases List.mem_cons.mp member with same | member
          · cases same
          · cases member
    | cancel =>
      rw [advance_cancel advanced] at behind replies
      obtain ⟨_, rfl⟩ := path_done behind
      obtain ⟨_, member, _⟩ := replies
      cases member
    | _ => cases advanced

/-- From the verified identity on, the index and the query decide. -/
theorem indexing_relays {incoming : Incoming lib} {identity : Identity}
    {setCookie : List HeaderValue} {session : Str} {reply : Response}
    (path : Path request (.indexing incoming identity setCookie session) moves last out)
    (replies : Replies out reply) :
    Relayed identity setCookie reply ↔ Move.indexed false ∉ moves ∧
      ∀ query, Move.loaded query ∈ moves →
        query incoming.request.slug (lib.http.text identity.sub) (groupsOf lib.http identity) ≠
          none := by
  cases path with
  | here =>
    obtain ⟨_, member, _⟩ := replies
    cases member
  | @move _ _ _ move _ rest later advanced behind =>
    cases move with
    | indexed ok =>
      obtain ⟨_, _, _, _, stage, ⟨rfl, rfl⟩ | ⟨rfl, rfl⟩⟩ := advance_indexed advanced
      · cases stage
        have onward : Replies later reply := by
          obtain ⟨event, member, shown⟩ := replies
          rcases List.mem_cons.mp member with rfl | member
          · cases shown
          · exact ⟨event, member, shown⟩
        obtain ⟨relays, indexed⟩ := loading_relays behind onward
        refine relays.trans ⟨fun all => ⟨fun member => ?_, fun query member => ?_⟩, ?_⟩
        · rcases List.mem_cons.mp member with same | member
          · cases same
          · exact indexed false member
        · rcases List.mem_cons.mp member with same | member
          · cases same
          · exact all query member
        · exact fun both query member => both.2 query (List.mem_cons_of_mem _ member)
      · cases stage
        obtain ⟨rfl, shown⟩ := replies_done behind replies
        cases shown
        exact iff_of_false (not_relayed_refuse _) fun both => both.1 List.mem_cons_self
    | cancel =>
      rw [advance_cancel advanced] at behind replies
      obtain ⟨_, rfl⟩ := path_done behind
      obtain ⟨_, member, _⟩ := replies
      cases member
    | _ => cases advanced

/-- **When a verified identity and its refreshed cookies are relayed**: a session can be read off
the cookie, the index write goes through and the query answers. -/
theorem relays_iff {incoming : Incoming lib} {response : AuthResponse} {identity : Identity}
    {setCookie : List HeaderValue} {reply : Response}
    (authentic : authenticate response = .verified identity setCookie)
    (path : Path request (.authenticating incoming) (.authenticated response :: moves) last out)
    (replies : Replies out reply) :
    (reply.identity = some identity ∧ reply.setCookie = setCookie) ↔
      incoming.session ≠ none ∧ Move.indexed false ∉ moves ∧
      ∀ query, Move.loaded query ∈ moves →
        query incoming.request.slug (lib.http.text identity.sub) (groupsOf lib.http identity) ≠
          none := by
  cases path with
  | @move _ _ _ _ _ _ later advanced behind =>
    cases known : incoming.session with
    | none =>
      simp only [advance, authentic, known] at advanced
      cases advanced
      obtain ⟨_, shown⟩ := replies_done behind replies
      cases shown
      exact iff_of_false (not_relayed_refuse _) fun all => all.1 rfl
    | some session =>
      simp only [advance, authentic, known] at advanced
      cases advanced
      have onward : Replies later reply := by
        obtain ⟨event, member, shown⟩ := replies
        rcases List.mem_cons.mp member with rfl | member
        · cases shown
        · exact ⟨event, member, shown⟩
      exact (indexing_relays behind onward).trans (and_iff_right (Option.some_ne_none session)).symm

end Relay

/-! ### A refreshed cookie -/

namespace Refreshed

/-- A refreshed cookie. -/
def cookie : HeaderValue := asBytes "_oauth2_proxy=new".toList

/-- oauth2-proxy's answer on a session that it has just refreshed. -/
def response : AuthResponse :=
  .answered 202
    (fun name => if name = "x-auth-request-user".toList then some (asBytes "u1".toList) else none)
    [cookie]

/-- A user without groups. -/
def identity : Identity := ⟨asBytes "u1".toList, [], [], []⟩

theorem verified : authenticate response = .verified identity [cookie] := rfl

/-- Postgres has the application and one allow. -/
def query : Query := fun _ _ _ => some (some Visit.app)

variable {incoming : Incoming Visit.lib}

theorem advance_verified (known : incoming.session = some Visit.session) :
    advance (.init Visit.lib) 0 (.authenticated response) (.authenticating incoming) =
      some ((State.init Visit.lib).next (.indexing incoming identity [cookie] Visit.session)
        [.authenticated (originOf 0 incoming) identity]) := by
  simp only [advance, verified, known]

/-- The index takes no writes. -/
theorem path_unindexed (known : incoming.session = some Visit.session) :
    ∃ out, Path 0 (.authenticating incoming) [.authenticated response, .indexed false] .done out ∧
      Replies out (refuse .storeUnavailable) := by
  have refused : advance (.init Visit.lib) 0 (.indexed false)
      (.indexing incoming identity [cookie] Visit.session) =
        some ((State.init Visit.lib).refused 0 (refuse .storeUnavailable)) := rfl
  exact ⟨_, .move (advance_verified known) (.move refused (.here _)),
    .refused 0 _, List.mem_cons_of_mem _ List.mem_cons_self, rfl⟩

/-- Everything answers. -/
theorem path_through (known : incoming.session = some Visit.session) {key : Key}
    (keyed : incoming.request.key = some key) :
    ∃ out reply, Path 0 (.authenticating incoming) [.authenticated response, .indexed true,
        .loaded query, .insert (Lib.Plan.table Key), .answer 0 0] .done out ∧
      Replies out reply := by
  have indexed : advance (.init Visit.lib) 0 (.indexed true)
      (.indexing incoming identity [cookie] Visit.session) = some _ := rfl
  have loaded : advance (.init Visit.lib) 0 (.loaded query)
      (.loading incoming identity [cookie] Visit.session) = some _ := rfl
  obtain ⟨cache, filled⟩ := Cache.exists_step_insert Visit.lib.http Visit.lib.pathHash .init key
    (Visit.lib.http.text (cachedOf identity (some Visit.app)).identity.sub)
    (cachedOf identity (some Visit.app)) (Lib.Plan.table Key)
  have inserted : advance (.init Visit.lib) 0 (.insert (Lib.Plan.table Key))
      (.filling incoming (cachedOf identity (some Visit.app)) [cookie] Visit.session) =
        some ⟨cache, fun _ => none,
          .answering incoming (cachedOf identity (some Visit.app)) [cookie],
          [.inserted (originOf 0 incoming) 0]⟩ := by
    simp only [advance, keyed, State.init, filled]
    rfl
  obtain ⟨taken, after, counted⟩ := Cache.exists_step_answer Visit.lib.http Visit.lib.pathHash .init
    incoming.request (cachedOf identity (some Visit.app)) 0 0
  have answered : advance (.init Visit.lib) 0 (.answer 0 0)
      (.answering incoming (cachedOf identity (some Visit.app)) [cookie]) =
        some ⟨after, release (fun _ => none) 0, .done, [.audit (.took taken),
          .answered (originOf 0 incoming) 0 (Decide.answered
            ((cachedOf identity (some Visit.app)).decision incoming.request.uri 0)
            (cachedOf identity (some Visit.app)).identity [cookie])]⟩ := by
    simp only [advance, State.init, counted]
    rfl
  refine ⟨_, Decide.answered ((cachedOf identity (some Visit.app)).decision incoming.request.uri 0)
      (cachedOf identity (some Visit.app)).identity [cookie],
    .move (advance_verified known) (.move indexed (.move loaded
      (.move inserted (.move answered (.here _))))), .answered (originOf 0 incoming) 0 _, ?_, rfl⟩
  simp [State.next]

end Refreshed

open Refreshed in
/-- With every store up, the refreshed cookie arrives. -/
theorem relays_through : ∃ (incoming : Incoming Visit.lib) (out : List Event) (reply : Response),
    gather Visit.lib Visit.headers = .ok incoming ∧
    Path 0 (.authenticating incoming) [.authenticated response, .indexed true, .loaded query,
      .insert (Lib.Plan.table Key), .answer 0 0] .done out ∧
    Replies out reply ∧ reply.identity = some Refreshed.identity ∧ reply.setCookie = [cookie] := by
  obtain ⟨incoming, key, gathered, keyed, known, _⟩ := Visit.gathers
  obtain ⟨out, reply, path, replies⟩ := path_through known keyed
  refine ⟨incoming, out, reply, gathered, path, replies,
    (relays_iff verified path replies).mpr ⟨?_, by simp, ?_⟩⟩
  · rw [known]
    exact Option.some_ne_none _
  · intro other member
    have same : other = query := by simpa using member
    rw [same]
    exact Option.some_ne_none _

open Refreshed in
/-- **A refreshed cookie is swallowed** while the index takes no writes. -/
theorem refreshed_dropped : ∃ (incoming : Incoming Visit.lib) (out : List Event) (reply : Response),
    gather Visit.lib Visit.headers = .ok incoming ∧
    authenticate response = .verified Refreshed.identity [cookie] ∧
    Path 0 (.authenticating incoming) [.authenticated response, .indexed false] .done out ∧
    Replies out reply ∧ reply.identity = none ∧ reply.setCookie = [] := by
  obtain ⟨incoming, _, gathered, _, known, _⟩ := Visit.gathers
  obtain ⟨out, path, replies⟩ := path_unindexed known
  exact ⟨incoming, out, _, gathered, verified, path, replies, rfl, rfl⟩

end OpenBerat.Instance
