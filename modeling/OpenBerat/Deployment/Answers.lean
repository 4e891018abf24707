/-
**What an answer says of the tables.**

Between the tables and an answer lie the two statements of `rules_for`, a cache and other requests.
Whatever is interleaved, the decision of an answer is one that the tables gave: from the application
of one moment and the rules of a later one, both read by one request of the same instance after its
index write, and no older than the time an entry lives when they come out of the cache.

* `Sound`: what stands behind the requests and the entries of every instance.
* `answered_from`: every answer of a run.
* `catches_up`: every answer of a run while the tables say the same of a user.
-/

import OpenBerat.Deployment.Machine
import OpenBerat.Lib.History

namespace OpenBerat.Deployment

open Decide (Incoming)
open Instance (Origin Stage advance originOf)
open Lib (Everywhere Plan Run everywhere_append everywhere_concat everywhere_nil)
open Manage (Config Tables)
open Validate (UrlParser)

section Answers

variable {space : Char → Bool} {lib : Libraries} {start : State space lib} {node : Nat}
  {past out : List (Event space)} {origin : Origin} {cached : Cached}

/-! ### Where data comes from -/

/-- The request had its session in the index when the run began, and was not through. -/
def Underway (start : State space lib) (node request : Nat) : Prop :=
  match (start.instances node).stages request with
  | .loading .. => True
  | .filling .. => True
  | .answering .. => True
  | _ => False

/-- The request has read the data: the application at one moment after its index write, and then the
rules. -/
def Read (start : State space lib) (node : Nat) (past : List (Event space)) (source : Origin)
    (cached : Cached) : Prop :=
  ∃ first second third session found,
    past = first ++ second ++ .decided node (.loaded source found) :: third ∧
      .decided node (.indexed source (lib.http.text cached.identity.sub) session) ∈ first ∧
      ∀ uri now, cached.decision uri now = torn lib.http (tablesAt start.tables first)
        (tablesAt start.tables (first ++ second)) source.slug cached.identity uri now

/-- The request has read the data in the run, or was underway when it began. -/
def Loaded (start : State space lib) (node : Nat) (past : List (Event space)) (source : Origin)
    (cached : Cached) : Prop :=
  Underway start node source.request ∨ Read start node past source cached

/-- What a request answers from. -/
inductive Source (start : State space lib) (node : Nat) (past : List (Event space))
    (origin : Origin) (cached : Cached) : Prop
  | own : Loaded start node past origin cached → Source start node past origin cached
  /-- An entry of before the run. -/
  | stored {key : Key} {entry : Cache.Entry} {looked : Instant} : key.slug = origin.slug →
      (start.instances node).cache.inner.entries.lookup key = some entry → entry.cached = cached →
      looked - entry.inserted < Cache.ttl → .decided node (.hit origin looked) ∈ past →
      Source start node past origin cached
  /-- An entry that a request of the run has made. -/
  | kept {source : Origin} {inserted looked : Instant} {before between after : List (Event space)} :
      source.slug = origin.slug → inserted ≤ looked → looked - inserted < Cache.ttl →
      past = before ++ .decided node (.inserted source inserted) ::
        (between ++ .decided node (.hit origin looked) :: after) →
      Loaded start node before source cached → Source start node past origin cached

theorem Loaded.append (loaded : Loaded start node past origin cached) (out : List (Event space)) :
    Loaded start node (past ++ out) origin cached := by
  rcases loaded with underway | ⟨first, second, third, session, found, rfl, indexed, decision⟩
  · exact Or.inl underway
  · refine Or.inr ⟨first, second, third ++ out, session, found, ?_, indexed, decision⟩
    rw [List.append_assoc, List.cons_append]

theorem Source.append (source : Source start node past origin cached) (out : List (Event space)) :
    Source start node (past ++ out) origin cached := by
  cases source with
  | own loaded => exact .own (loaded.append out)
  | stored slug found same live hit =>
    exact .stored slug found same live (List.mem_append_left _ hit)
  | @kept source inserted looked before between after slug order live shape loaded =>
    refine @Source.kept _ _ _ _ _ _ _ source inserted looked before between
      (after ++ out) slug order live ?_ loaded
    rw [shape, List.append_assoc, List.cons_append, List.append_assoc, List.cons_append]

/-! ### The invariant -/

/-- What stands behind an entry. -/
def EntrySound (start : State space lib) (node : Nat) (past : List (Event space)) (key : Key)
    (entry : Cache.Entry) : Prop :=
  (∃ earlier, (start.instances node).cache.inner.entries.lookup key = some earlier ∧
    entry.Like earlier) ∨
    ∃ source before after, source.slug = key.slug ∧
      past = before ++ .decided node (.inserted source entry.inserted) :: after ∧
      Loaded start node before source entry.cached

/-- What stands behind a request. -/
def StageSound (start : State space lib) (node : Nat) (past : List (Event space)) (request : Nat) :
    Stage lib → Prop
  | .loading incoming identity _ _ => Underway start node request ∨ ∃ session,
      .decided node (.indexed (originOf request incoming) (lib.http.text identity.sub) session) ∈
        past
  | .filling incoming cached _ _ => Loaded start node past (originOf request incoming) cached
  | .answering incoming cached _ => Source start node past (originOf request incoming) cached
  | _ => True

/-- What stands behind a first statement's answer. -/
def SelectedSound (start : State space lib) (node : Nat) (past : List (Event space)) (request : Nat)
    (selected : Uuid × Bool) (stage : Stage lib) : Prop :=
  stage = .done ∨ ∃ incoming identity setCookie session,
    stage = .loading incoming identity setCookie session ∧
    (Underway start node request ∨ ∃ first second session, past = first ++ second ∧
      .decided node (.indexed (originOf request incoming) (lib.http.text identity.sub) session) ∈
        first ∧
      selection (tablesAt start.tables first) incoming.request.slug = some selected)

/-- An answer is the decision of data that has a source. -/
def Good (start : State space lib) (before : List (Event space)) (event : Event space) : Prop :=
  ∀ node origin now response, event = .decided node (.answered origin now response) →
    ∃ cached setCookie, Source start node before origin cached ∧
      response = Decide.answered (cached.decision origin.uri now) cached.identity setCookie

/-- **What a run keeps of an instance**: behind each of its entries, requests and first statements
stands the data's source. -/
structure NodeSound (start : State space lib) (node : Nat) (past : List (Event space))
    (instance' : Instance.State lib) (selected : Nat → Option (Uuid × Bool)) : Prop where
  dated : ∀ key entry, instance'.cache.inner.entries.lookup key = some entry →
    entry.inserted ≤ instance'.cache.now
  entries : ∀ key entry, instance'.cache.inner.entries.lookup key = some entry →
    EntrySound start node past key entry
  stages : ∀ request, StageSound start node past request (instance'.stages request)
  selected : ∀ request pair, selected request = some pair →
    SelectedSound start node past request pair (instance'.stages request)

/-- **What a run keeps**: the tables are those of the trace, and every answer has a source. -/
structure Sound (start : State space lib) (past : List (Event space)) (state : State space lib) :
    Prop where
  tables : state.tables = tablesAt start.tables past
  nodes : ∀ node,
    NodeSound start node past (state.instances node) fun request => state.selected (node, request)
  answers : Everywhere (Good start) past

variable {request : Nat} {instance' : Instance.State lib} {selected : Nat → Option (Uuid × Bool)}

theorem EntrySound.append {key : Key} {entry : Cache.Entry}
    (sound : EntrySound start node past key entry)
    (out : List (Event space)) : EntrySound start node (past ++ out) key entry := by
  rcases sound with old | ⟨source, before, after, slug, rfl, loaded⟩
  · exact Or.inl old
  · refine Or.inr ⟨source, before, after ++ out, slug, ?_, loaded⟩
    rw [List.append_assoc, List.cons_append]

/-- An entry that has only been counted in has the same behind it. -/
theorem EntrySound.like {key : Key} {entry earlier : Cache.Entry}
    (sound : EntrySound start node past key earlier) (like : entry.Like earlier) :
    EntrySound start node past key entry := by
  rcases sound with ⟨first, found, same⟩ | made
  · exact Or.inl ⟨first, found, like.sub.trans same.sub, like.slug.trans same.slug,
      like.cached.trans same.cached, like.inserted.trans same.inserted⟩
  · refine Or.inr ?_
    rw [like.inserted, like.cached]
    exact made

theorem StageSound.append {stage : Stage lib} (sound : StageSound start node past request stage)
    (out : List (Event space)) : StageSound start node (past ++ out) request stage := by
  cases stage with
  | loading incoming identity setCookie session =>
    exact sound.imp_right fun ⟨session, indexed⟩ => ⟨session, List.mem_append_left _ indexed⟩
  | filling incoming cached setCookie session => exact Loaded.append sound out
  | answering incoming cached setCookie => exact Source.append sound out
  | _ => trivial

theorem SelectedSound.append {pair : Uuid × Bool} {stage : Stage lib}
    (sound : SelectedSound start node past request pair stage) (out : List (Event space)) :
    SelectedSound start node (past ++ out) request pair stage := by
  rcases sound with done | ⟨incoming, identity, setCookie, session, stage, underway |
    ⟨first, second, key, rfl, indexed, known⟩⟩
  · exact Or.inl done
  · exact Or.inr ⟨incoming, identity, setCookie, session, stage, Or.inl underway⟩
  · refine Or.inr ⟨incoming, identity, setCookie, session, stage,
      Or.inr ⟨first, second ++ out, key, ?_, indexed,
      known⟩⟩
    rw [List.append_assoc]

theorem NodeSound.append (sound : NodeSound start node past instance' selected)
    (out : List (Event space)) :
    NodeSound start node (past ++ out) instance' selected where
  dated := sound.dated
  entries key entry found := (sound.entries key entry found).append out
  stages request := (sound.stages request).append out
  selected request pair known := (sound.selected request pair known).append out

theorem good_of_other {event : Event space}
    (other : ∀ node origin now response, event ≠ .decided node (.answered origin now response))
    (before : List (Event space)) : Good start before event :=
  fun node origin now response same => absurd same (other node origin now response)

/-! ### One instance -/

/-- The stage of a request that has no answer of a first statement. -/
def unread : Stage lib → Bool
  | .done => false
  | .loading .. => false
  | _ => true

theorem NodeSound.unselected (sound : NodeSound start node past instance' selected)
    (before : unread (instance'.stages request) = true) : selected request = none := by
  cases known : selected request with
  | none => rfl
  | some pair =>
    rcases sound.selected request pair known with done | ⟨_, _, _, _, loading, _⟩
    · rw [done] at before
      cases before
    · rw [loading] at before
      cases before

/-- What a move has to show. -/
theorem NodeSound.moved (sound : NodeSound start node past instance' selected) {cache : Cache.State}
    {fill : Nat → Option Nat} {stage : Stage lib}
    (dated : ∀ key entry, cache.inner.entries.lookup key = some entry → entry.inserted ≤ cache.now)
    (entries : ∀ key entry, cache.inner.entries.lookup key = some entry →
      EntrySound start node (past ++ out) key entry)
    (backed : StageSound start node (past ++ out) request stage)
    (known : selected request = none ∨ stage = .done) :
    NodeSound start node (past ++ out)
      (⟨cache, fill, Function.update instance'.stages request stage⟩ : Instance.State lib)
        selected := by
  refine ⟨dated, entries, ?_, fun other pair answered => ?_⟩
  · refine (Function.forall_update_iff instance'.stages fun other reached =>
      StageSound start node (past ++ out) other reached).mpr ⟨backed, fun other _ => ?_⟩
    exact (sound.stages other).append out
  · dsimp only
    by_cases same : other = request
    · subst same
      rw [Function.update_self]
      rcases known with none | done
      · rw [none] at answered
        cases answered
      · exact Or.inl done
    · rw [Function.update_of_ne same]
      exact (sound.selected other pair answered).append out

/-- Entries that are old ones, up to counting. -/
theorem NodeSound.within {cache : Cache.State}
    (sound : NodeSound start node past instance' selected)
    (within : Cache.Within instance'.cache.inner cache.inner)
    (monotone : instance'.cache.now ≤ cache.now)
    (out : List (Event space)) :
    (∀ key entry, cache.inner.entries.lookup key = some entry → entry.inserted ≤ cache.now) ∧
      ∀ key entry, cache.inner.entries.lookup key = some entry →
      EntrySound start node (past ++ out) key entry := by
  refine ⟨fun key entry found => ?_, fun key entry found => ?_⟩
  · obtain ⟨earlier, old, like⟩ := within key entry found
    rw [like.inserted]
    exact (sound.dated key earlier old).trans monotone
  · obtain ⟨earlier, old, like⟩ := within key entry found
    exact ((sound.entries key earlier old).append out).like like

/-- A move that leaves the cache alone. -/
theorem NodeSound.onward (sound : NodeSound start node past instance' selected)
    {fill : Nat → Option Nat}
    {stage : Stage lib} (backed : StageSound start node (past ++ out) request stage)
    (known : selected request = none ∨ stage = .done) :
    NodeSound start node (past ++ out)
      (⟨instance'.cache, fill, Function.update instance'.stages request stage⟩ : Instance.State lib)
        selected :=
  have within := sound.within (.refl _) (le_refl _) out
  sound.moved within.1 within.2 backed known

/-- Behind a lookup that found nothing there is nothing to show. -/
theorem missed_sound {incoming : Incoming lib} {locked : Bool} (past : List (Event space)) :
    StageSound start node past request (Instance.missed incoming locked) := by
  cases locked with
  | true => trivial
  | false => trivial

/-- **A hit**: the entry is an old one, or a request of the run has made it. -/
theorem source_of_hit (sound : NodeSound start node past instance' selected)
    {incoming : Incoming lib} {key : Key}
    (keyed : incoming.request.key = some key)
    (looked : Cache.lookup instance'.cache.now instance'.cache.inner key = some cached) :
    Source start node
      (past ++ [.decided node (.hit (originOf request incoming) instance'.cache.now)])
      (originOf request incoming) cached := by
  obtain ⟨value, _, rfl⟩ := Incoming.key_eq_some.mp keyed
  unfold Cache.lookup at looked
  split at looked
  · cases looked
  · rename_i entry found
    split_ifs at looked with live
    obtain rfl := Option.some.inj looked
    rcases sound.entries _ entry found with
      ⟨earlier, old, like⟩ | ⟨source, before, after, slug, shape, loaded⟩
    · refine @Source.stored _ _ _ _ _ _ _ _ earlier instance'.cache.now rfl old like.cached.symm ?_
        (List.mem_append_right _ List.mem_cons_self)
      rw [← like.inserted]
      exact live
    · refine @Source.kept _ _ _ _ _ _ _ source entry.inserted instance'.cache.now before after
        [] slug
        (sound.dated _ entry found) live ?_ loaded
      rw [shape, List.append_assoc, List.cons_append]

/-- **A move** of a request, `rules_for` aside. -/
theorem nodeSound_move {move : Instance.Move} {moved : Instance.Moved lib}
    (sound : NodeSound start node past instance' selected)
    (quiet : loads (.move request move) = false)
    (advanced : advance instance' request move (instance'.stages request) = some moved) :
    NodeSound start node (past ++ moved.out.map (.decided node))
      ⟨moved.cache, moved.fill, Function.update instance'.stages request moved.stage⟩ selected := by
  have free : ∀ {stage}, instance'.stages request = stage → unread stage = true →
      selected request = none :=
    fun reached before => sound.unselected (by rw [reached]; exact before)
  cases move with
  | flag =>
    obtain ⟨incoming, locked, stage, ⟨_, rfl⟩ | ⟨_, rfl⟩⟩ := Instance.advance_flag advanced
    · exact sound.onward trivial (Or.inl (free stage rfl))
    · exact sound.onward (missed_sound _) (Or.inl (free stage rfl))
  | read =>
    obtain ⟨incoming, locked, stage, ⟨key, cached, keyed, looked, rfl⟩ | ⟨_, rfl⟩⟩ :=
      Instance.advance_read advanced
    · exact sound.onward (source_of_hit sound keyed looked) (Or.inl (free stage rfl))
    · exact sound.onward (missed_sound _) (Or.inl (free stage rfl))
  | acquire =>
    obtain ⟨incoming, key, stage, _, _, rfl⟩ := Instance.advance_acquire advanced
    exact sound.onward trivial (Or.inl (free stage rfl))
  | authenticated response =>
    obtain ⟨incoming, stage, ⟨identity, setCookie, session, _, _, rfl⟩ | ⟨response, _, rfl⟩⟩ :=
      Instance.advance_authenticated advanced
    · exact sound.onward trivial (Or.inl (free stage rfl))
    · exact sound.onward trivial (Or.inr rfl)
  | indexed ok =>
    obtain ⟨incoming, identity, setCookie, session, stage, ⟨_, rfl⟩ | ⟨_, rfl⟩⟩ :=
      Instance.advance_indexed advanced
    · refine sound.onward (Or.inr ⟨session, ?_⟩) (Or.inl (free stage rfl))
      exact List.mem_append_right _ List.mem_cons_self
    · exact sound.onward trivial (Or.inr rfl)
  | loaded query => cases quiet
  | insert plan =>
    obtain ⟨incoming, cached, setCookie, session, stage,
        ⟨_, rfl⟩ | ⟨key, cache, keyed, stepped, rfl⟩⟩ :=
      Instance.advance_insert advanced
    · have backed := sound.stages request
      rw [stage] at backed
      exact sound.onward (.own (Loaded.append backed _)) (Or.inl (free stage rfl))
    · have backed := sound.stages request
      rw [stage] at backed
      obtain ⟨_, rfl⟩ := Cache.step_insert stepped
      obtain ⟨value, _, rfl⟩ := Incoming.key_eq_some.mp keyed
      refine sound.moved (fun other entry found => ?_) (fun other entry found => ?_)
        (.own (Loaded.append backed _)) (Or.inl (free stage rfl))
      · rcases Cache.lookup_of_insert found with ⟨_, rfl⟩ | ⟨_, old⟩
        · exact le_refl _
        · exact sound.dated other entry old
      · rcases Cache.lookup_of_insert found with ⟨rfl, rfl⟩ | ⟨_, old⟩
        · exact Or.inr ⟨originOf request incoming, past, [], rfl, rfl, backed⟩
        · exact (sound.entries other entry old).append _
  | answer now seen =>
    obtain ⟨incoming, cached, setCookie, cache, out, stage, stepped, rfl⟩ :=
      Instance.advance_answer advanced
    obtain ⟨within, _, _, clock⟩ := Cache.within_of_answer stepped
    obtain ⟨dated, entries⟩ := sound.within within (le_of_eq clock.symm) _
    exact sound.moved dated entries trivial (Or.inr rfl)
  | cancel =>
    obtain rfl := Instance.advance_cancel advanced
    exact sound.onward trivial (Or.inr rfl)

/-- **A step** of an instance, `rules_for` aside. -/
theorem nodeSound_step {label : Instance.Label} {next : Instance.State lib}
    {events : List Instance.Event}
    (sound : NodeSound start node past instance' selected) (quiet : loads label = false)
    (stepped : Instance.step instance' label = some (next, events)) :
    NodeSound start node (past ++ events.map (.decided node)) next selected := by
  cases label with
  | arrive request headers =>
    obtain ⟨idle, ⟨response, _, rfl, rfl⟩ | ⟨incoming, stage, _, rfl, reached, rfl⟩⟩ :=
      Instance.step_arrive stepped
    · exact sound.onward trivial (Or.inr rfl)
    · refine sound.onward ?_ (Or.inl (sound.unselected (by rw [idle]; rfl)))
      rcases reached with rfl | ⟨_, rfl⟩
      · trivial
      · trivial
  | move request move =>
    obtain ⟨moved, advanced, rfl, rfl⟩ := Instance.step_move stepped
    exact nodeSound_move sound quiet advanced
  | cache label =>
    obtain ⟨cache, seen, quiet, taken, rfl, rfl⟩ := Instance.step_cache stepped
    obtain ⟨within, monotone⟩ := Cache.within_of_background quiet taken
    obtain ⟨dated, entries⟩ := sound.within within monotone
      ((seen.map Instance.Event.audit).map (Event.decided node : Instance.Event → Event space))
    exact ⟨dated, entries, fun request => (sound.stages request).append _,
      fun request pair known => (sound.selected request pair known).append _⟩

/-- **`rules_for` returns**, with what the two statements have answered. -/
theorem nodeSound_load {query : Query} {next : Instance.State lib} {events : List Instance.Event}
    (sound : NodeSound start node past instance' selected)
    (stepped : Instance.step instance' (.move request (.loaded query)) = some (next, events))
    (made : ∀ incoming identity setCookie session found,
      instance'.stages request = .loading incoming identity setCookie session →
      query incoming.request.slug (lib.http.text identity.sub) (groupsOf lib.http identity) =
        some found →
      Loaded start node (past ++ [.decided node (.loaded (originOf request incoming) found)])
        (originOf request incoming) (cachedOf identity found)) :
    NodeSound start node (past ++ events.map (.decided node)) next
      (Function.update selected request none) := by
  obtain ⟨moved, advanced, rfl, rfl⟩ := Instance.step_move stepped
  have cleared : NodeSound start node past instance' (Function.update selected request none) := by
    refine ⟨sound.dated, sound.entries, sound.stages, fun other pair known => ?_⟩
    by_cases same : other = request
    · rw [same, Function.update_self] at known
      cases known
    · rw [Function.update_of_ne same] at known
      exact sound.selected other pair known
  have none : Function.update selected request none request = none := Function.update_self ..
  obtain ⟨incoming, identity, setCookie, session, stage, ⟨found, answered, rfl⟩ | ⟨_, rfl⟩⟩ :=
    Instance.advance_loaded advanced
  · exact cleared.onward (made incoming identity setCookie session found stage answered)
      (Or.inl none)
  · exact cleared.onward trivial (Or.inl none)

/-- **What a step shows** is good: an answer has a source. -/
theorem good_of_step {label : Instance.Label} {next : Instance.State lib}
    {events : List Instance.Event}
    (sound : NodeSound start node past instance' selected) (good : Everywhere (Good start) past)
    (stepped : Instance.step instance' label = some (next, events)) :
    Everywhere (Good start) (past ++ events.map (.decided node)) := by
  rcases Instance.answered_of_step stepped with
    quiet | ⟨request, now, incoming, cached, setCookie, audits, stage, rfl⟩
  · refine everywhere_append good fun event member => ?_
    obtain ⟨shown, inside, rfl⟩ := List.mem_map.mp member
    refine good_of_other fun other origin now response same => ?_
    exact quiet shown inside origin now response (Event.decided.inj same).2
  · have source := sound.stages request
    rw [stage] at source
    rw [List.map_append, ← List.append_assoc]
    refine everywhere_concat.mpr ⟨everywhere_append good fun event member => ?_, ?_⟩
    · obtain ⟨_, inside, rfl⟩ := List.mem_map.mp member
      obtain ⟨_, _, rfl⟩ := List.mem_map.mp inside
      exact good_of_other fun _ _ _ _ same => nomatch (Event.decided.inj same).2
    · intro other origin seen response same
      cases same
      exact ⟨cached, setCookie, Source.append source _, rfl⟩

/-! ### The deployment -/

variable {urls : UrlParser} {config : Config} {state next : State space lib}

/-- One instance has moved on, and the others have not. -/
theorem Sound.on (sound : Sound start past state) {moved : Instance.State lib}
    {events : List Instance.Event} {selected : Nat × Nat → Option (Uuid × Bool)}
    (others : ∀ other, other ≠ node →
      ∀ request, selected (other, request) = state.selected (other, request))
    (node' : NodeSound start node (past ++ events.map (.decided node)) moved fun request =>
      selected (node, request))
    (good : Everywhere (Good start) (past ++ events.map (.decided node))) :
    Sound start (past ++ events.map (.decided node)) (state.on node moved selected) where
  tables := by
    rw [tablesAt_decided]
    exact sound.tables
  nodes other := by
    unfold State.on
    dsimp only
    by_cases same : other = node
    · subst same
      rw [Function.update_self]
      exact node'
    · rw [Function.update_of_ne same]
      have here := (sound.nodes other).append (events.map (.decided node))
      have agree : (fun request => selected (other, request)) = fun request =>
        state.selected (other, request) :=
        funext (others other same)
      rwa [agree]
  answers := good

theorem sound_manage {request : Manage.Request} {outside : Manage.Outside}
    (sound : Sound start past state)
    (stepped : step urls config state (.manage request outside) = some (next, out)) :
    Sound start (past ++ out) next := by
  obtain ⟨tables, commits, done, rfl, rfl⟩ := step_manage stepped
  refine ⟨?_, fun node => (sound.nodes node).append _, ?_⟩
  · -- There is one commit, which shows the tables, or there is none.
    rcases Manage.applied_of_step done with ⟨rfl, rfl⟩ | ⟨commit, rfl, _, _⟩
    · rw [List.map_nil, List.append_nil]
      exact sound.tables
    · unfold tablesAt
      rw [List.foldl_append]
      rfl
  · refine everywhere_append sound.answers fun event member => ?_
    obtain ⟨_, _, rfl⟩ := List.mem_map.mp member
    exact good_of_other fun _ _ _ _ same => nomatch same

/-- `rules_for` returns, in a deployment. -/
theorem sound_load {request : Nat} {query : Query} (sound : Sound start past state)
    (loaded : load state node request query = some (next, out))
    (made : ∀ incoming identity setCookie session found,
      (state.instances node).stages request = .loading incoming identity setCookie session →
      query incoming.request.slug (lib.http.text identity.sub) (groupsOf lib.http identity) =
        some found →
      Loaded start node (past ++ [.decided node (.loaded (originOf request incoming) found)])
        (originOf request incoming) (cachedOf identity found)) :
    Sound start (past ++ out) next := by
  obtain ⟨moved, events, stepped, rfl, rfl⟩ := load_eq_some loaded
  refine sound.on (fun other different request' => ?_) ?_
    (good_of_step (sound.nodes node) sound.answers stepped)
  · rw [Function.update_of_ne fun same => different (congrArg Prod.fst same)]
  · have here :
        (fun request' => Function.update state.selected (node, request) none (node, request')) =
        Function.update (fun request' => state.selected (node, request')) request none := by
      funext request'
      by_cases same : request' = request
      · rw [same, Function.update_self, Function.update_self]
      · rw [Function.update_of_ne same,
          Function.update_of_ne fun pair => same (congrArg Prod.snd pair)]
    rw [here]
    exact nodeSound_load (sound.nodes node) stepped made

theorem sound_select {request : Nat} {answers : Bool} (sound : Sound start past state)
    (stepped : step urls config state (.select node request answers) = some (next, out)) :
    Sound start (past ++ out) next := by
  obtain ⟨incoming, identity, setCookie, session, stage,
      ⟨pair, found, rfl, rfl⟩ | ⟨query, loaded, none'⟩⟩ :=
    step_select stepped
  · have backed := (sound.nodes node).stages request
    rw [stage] at backed
    rw [List.append_nil]
    refine ⟨sound.tables, fun other => ⟨(sound.nodes other).dated, (sound.nodes other).entries,
      (sound.nodes other).stages, fun request' pair' known => ?_⟩, sound.answers⟩
    dsimp only at known
    by_cases same : (other, request') = (node, request)
    · cases same
      rw [Function.update_self] at known
      cases known
      refine Or.inr ⟨incoming, identity, setCookie, session, stage, ?_⟩
      rcases backed with underway | ⟨key, indexed⟩
      · exact Or.inl underway
      · refine Or.inr ⟨past, [], key, (List.append_nil past).symm, indexed, ?_⟩
        rw [← sound.tables]
        exact found
    · rw [Function.update_of_ne same] at known
      exact (sound.nodes other).selected request' pair' known
  · refine sound_load sound loaded fun incoming' identity' setCookie' session' found reached
      answered => ?_
    rw [stage] at reached
    cases reached
    obtain ⟨absent, rfl⟩ := none' _ _ _ _ answered
    have backed := (sound.nodes node).stages request
    rw [stage] at backed
    rcases backed with underway | ⟨key, indexed⟩
    · exact Or.inl underway
    · refine Or.inr ⟨past, [], [], key, none, by rw [List.append_nil], indexed, fun uri now => ?_⟩
      rw [List.append_nil, ← sound.tables]
      show Policy.decide false [] uri now = torn _ _ _ incoming.request.slug _ _ _
      unfold torn
      rw [absent]

theorem sound_fetch {request : Nat} {plan : Option (Plan EntitlementRow)}
    (sound : Sound start past state)
    (stepped : step urls config state (.fetch node request plan) = some (next, out)) :
    Sound start (past ++ out) next := by
  obtain ⟨pair, query, known, loaded, answer⟩ := step_fetch stepped
  refine sound_load sound loaded fun incoming identity setCookie session found reached answered =>
    ?_
  obtain ⟨plan, rules⟩ := answer _ _ _ _ answered
  cases rules
  rcases (sound.nodes node).selected request pair known with done | ⟨_, _, _, _, stage, behind⟩
  · rw [done] at reached
    cases reached
  · rw [reached] at stage
    cases stage
    rcases behind with underway | ⟨first, second, key, shape, indexed, selected⟩
    · exact Or.inl underway
    · refine Or.inr ⟨first, second, [], key, _, by rw [shape], indexed, fun uri now => ?_⟩
      show Policy.decide pair.2 _ uri now = torn _ _ _ incoming.request.slug identity _ _
      unfold torn
      rw [selected, ← shape, ← sound.tables]
      exact Policy.decide_congr (fun rule => ((plan.perm _).map Store.ruleOfRow).mem_iff) pair.2
        uri now

/-- **One step.** -/
theorem sound_step {label : Label} (sound : Sound start past state)
    (stepped : step urls config state label = some (next, out)) :
    Sound start (past ++ out) next := by
  cases label with
  | manage request outside => exact sound_manage sound stepped
  | decide node label =>
    obtain ⟨moved, events, quiet, done, rfl, rfl⟩ := step_decide stepped
    exact sound.on (fun _ _ _ => rfl) (nodeSound_step (sound.nodes node) quiet done)
      (good_of_step (sound.nodes node) sound.answers done)
  | select node request answers => exact sound_select sound stepped
  | fetch node request plan => exact sound_fetch sound stepped

theorem sound_of_run {allowed : State space lib → Label → Prop} (base : Sound start [] start)
    {trace : List (Event space)} (run : Run (step urls config) allowed start trace state) :
    Sound start trace state := by
  refine @Run.invariant _ _ _ _ _ _ (fun trace state => Sound start trace state) base ?_ _ _ run
  intro past state label next out sound _ stepped
  exact sound_step sound stepped

theorem sound_init (tables : Tables space) :
    Sound (.init tables : State space lib) [] (.init tables) where
  tables := rfl
  nodes _ := ⟨fun _ _ found => (nomatch found), fun _ _ found => (nomatch found), fun _ => trivial,
    fun _ _ known => (nomatch known)⟩
  answers := everywhere_nil _

/-! ### Every answer -/

/-- The decision of an answer, from the tables of two moments of the run. -/
def AnsweredFrom (lib : Libraries) (tables : Tables space) (before : List (Event space))
    (node : Nat)
    (origin : Origin) (now : DateTime) (response : Decide.Response) : Prop :=
  ∃ source identity setCookie first second third session found,
    before = first ++ second ++ .decided node (.loaded source found) :: third ∧
      source.slug = origin.slug ∧
      .decided node (.indexed source (lib.http.text identity.sub) session) ∈ first ∧
      response = Decide.answered
        (torn lib.http (tablesAt tables first) (tablesAt tables (first ++ second))
        origin.slug identity origin.uri now) identity setCookie ∧
      (source = origin ∨ ∃ inserted looked made between after, inserted ≤ looked ∧
        looked - inserted < Cache.ttl ∧
        third = made ++ .decided node (.inserted source inserted) ::
          (between ++ .decided node (.hit origin looked) :: after))

theorem not_underway {tables : Tables space} {request : Nat} :
    ¬ Underway (.init tables : State space lib) node request :=
  id

/-- **Every answer is one the tables gave.** The decision is taken from the application of one
moment and the rules of a later one, for the identity in the answer's own headers. One request of
the same instance has read both, after its session was in the index: the request that is answered,
or another for the same application whose entry was looked up before its time was over. -/
theorem answered_from (urls : UrlParser) (config : Config) (tables : Tables space)
    {allowed : State space lib → Label → Prop} {trace : List (Event space)}
    (run : Run (step urls config) allowed (.init tables) trace state) :
    ∀ before node origin now response after,
      trace = before ++ .decided node (.answered origin now response) :: after →
      AnsweredFrom lib tables before node origin now response := by
  intro before node origin now response after shape
  obtain ⟨cached, setCookie, source, rfl⟩ :=
    (sound_of_run (sound_init tables) run).answers before _ after shape node origin now response rfl
  cases source with
  | own loaded =>
    rcases loaded with underway | ⟨first, second, third, session, found, rfl, indexed, decision⟩
    · exact absurd underway not_underway
    · refine ⟨origin, cached.identity, setCookie, first, second, third, session, found, rfl, rfl,
        indexed, ?_, Or.inl rfl⟩
      rw [decision]
      rfl
  | stored _ found => cases found
  | @kept source inserted looked made between after slug order live shape loaded =>
    rcases loaded with underway | ⟨first, second, third, session, found, rfl, indexed, decision⟩
    · exact absurd underway not_underway
    · refine ⟨source, cached.identity, setCookie, first, second, _, session, found, ?_, slug,
        indexed, ?_, Or.inr ⟨inserted, looked, third, between, after, order, live, rfl⟩⟩
      · rw [shape, List.append_assoc, List.cons_append]
      · rw [decision, slug]
        rfl

/-! ### Tables that stand still -/

/-- The tables say the same of a user on an application. -/
def Still (http : HeaderText) (slug : Str) (identity : Identity) (tables next : Tables space) :
    Prop :=
  selection next slug = selection tables slug ∧
    ∀ id enabled, selection tables slug = some (id, enabled) →
    ∀ rule, rule ∈ next.rules id (http.text identity.sub) (groupsOf http identity) ↔
      rule ∈ tables.rules id (http.text identity.sub) (groupsOf http identity)

theorem Still.torn {slug : Str} {identity : Identity} {tables early late : Tables space}
    (first : Still lib.http slug identity tables early)
    (second : Still lib.http slug identity tables late) (plan : Plan EntitlementRow) (uri : Str)
    (now : DateTime) :
    torn lib.http early late slug identity uri now =
      missDecision lib.http tables.db plan slug identity uri now := by
  rw [← torn_self]
  unfold Deployment.torn
  rw [first.1]
  cases found : selection tables slug with
  | none => rfl
  | some pair => exact Policy.decide_congr (second.2 pair.1 pair.2 found) pair.2 uri now

/-- What holds of the tables in front of every step holds of them in front of every event. -/
theorem everywhere_tables {property : Tables space → Prop} (base : Sound start [] start)
    {trace : List (Event space)}
    (run : Run (step urls config) (fun state _ => property state.tables) start trace state) :
    Everywhere (fun before _ => property (tablesAt start.tables before)) trace := by
  refine (@Run.invariant _ _ _ _ _ _ (fun trace state => Sound start trace state ∧
    Everywhere (fun before _ => property (tablesAt start.tables before)) trace)
    ⟨base, everywhere_nil _⟩ ?_ _ _ run).2
  rintro past state label next out ⟨sound, all⟩ here stepped
  refine ⟨sound_step sound stepped, ?_⟩
  rw [sound.tables] at here
  have shown : ∀ (node : Nat) (events : List Instance.Event),
      Everywhere (fun before _ => property (tablesAt start.tables before))
          (past ++ events.map (.decided node)) := by
    intro node events
    induction events using List.reverseRecOn with
    | nil => rwa [List.map_nil, List.append_nil]
    | append_singleton events event ih =>
      rw [List.map_append, ← List.append_assoc]
      refine everywhere_concat.mpr ⟨ih, ?_⟩
      rwa [tablesAt_decided]
  cases label with
  | manage request outside =>
    obtain ⟨tables, commits, done, rfl, rfl⟩ := step_manage stepped
    rcases Manage.applied_of_step done with ⟨rfl, rfl⟩ | ⟨commit, rfl, _, _⟩
    · rwa [List.map_nil, List.append_nil]
    · exact everywhere_concat.mpr ⟨all, here⟩
  | decide node label =>
    obtain ⟨moved, events, _, _, rfl, _⟩ := step_decide stepped
    exact shown node events
  | select node request answers =>
    obtain ⟨_, _, _, _, _, ⟨_, _, rfl, _⟩ | ⟨query, loaded, _⟩⟩ := step_select stepped
    · rwa [List.append_nil]
    · obtain ⟨moved, events, _, rfl, _⟩ := load_eq_some loaded
      exact shown node events
  | fetch node request plan =>
    obtain ⟨_, query, _, loaded, _⟩ := step_fetch stepped
    obtain ⟨moved, events, _, rfl, _⟩ := load_eq_some loaded
    exact shown node events

/-- A state that a run has reached is one to begin with. -/
theorem sound_middle {tables : Tables space} {middle : State space lib}
    (sound : Sound (.init tables) past middle) : Sound middle [] middle where
  tables := rfl
  nodes node := by
    refine ⟨(sound.nodes node).dated, fun key entry found => Or.inl ⟨entry, found, .refl entry⟩,
      fun request => ?_, fun request pair known => ?_⟩
    · have underway : ∀ {stage}, (middle.instances node).stages request = stage →
          (match stage with
            | .loading .. => True
            | .filling .. => True
            | .answering .. => True
            | _ => False) → Underway middle node request := by
        rintro _ rfl holds
        exact holds
      cases reached : (middle.instances node).stages request with
      | loading => exact Or.inl (underway reached trivial)
      | filling => exact Or.inl (underway reached trivial)
      | answering => exact .own (Or.inl (underway reached trivial))
      | _ => trivial
    · rcases (sound.nodes node).selected request pair known with
        done | ⟨incoming, identity, setCookie, session, loading, _⟩
      · exact Or.inl done
      · refine Or.inr ⟨incoming, identity, setCookie, session, loading, Or.inl ?_⟩
        unfold Underway
        rw [loading]
        trivial
  answers := everywhere_nil _

/-- An answer that need not be that of the tables yet. -/
inductive Outdated (middle : State space lib) (node : Nat) (before : List (Event space))
    (origin : Origin) : Prop
  /-- The request itself was underway. -/
  | own : Underway middle node origin.request → Outdated middle node before origin
  /-- An entry of before, looked up in its time. -/
  | stored {looked : Instant} : .decided node (.hit origin looked) ∈ before →
      looked < (middle.instances node).cache.now + Cache.ttl → Outdated middle node before origin
  /-- An entry of a request that was underway, looked up in its time. -/
  | kept {source : Origin} {inserted looked : Instant} : Underway middle node source.request →
      source.slug = origin.slug → looked < inserted + Cache.ttl →
      [.decided node (.inserted source inserted),
        .decided node (.hit origin looked)].Sublist before →
      Outdated middle node before origin

/-- Data that has been read while the tables say the same is decided as they do. -/
theorem Read.decision {middle : State space lib} {source : Origin} {later rest : List (Event space)}
    (read : Read middle node past source cached)
    (still : Everywhere (fun before _ => Still lib.http source.slug cached.identity middle.tables
      (tablesAt middle.tables before)) later) (shape : later = past ++ rest)
    (plan : Plan EntitlementRow) (uri : Str) (now : DateTime) :
    cached.decision uri now =
      missDecision lib.http middle.tables.db plan source.slug cached.identity uri now := by
  obtain ⟨first, second, third, session, found, rfl, _, decision⟩ := read
  rw [List.append_assoc, List.cons_append] at shape
  rw [decision]
  refine Still.torn ?_ (still _ _ _ shape) plan uri now
  cases second with
  | nil => exact still first _ _ (by rw [shape, List.append_nil])
  | cons event second =>
    exact still first event _ (by rw [shape, List.append_assoc, List.cons_append])

theorem lt_of_live {looked inserted bound : Nat} (live : looked - inserted < Cache.ttl)
    (old : inserted ≤ bound) : looked < bound + Cache.ttl := by
  omega

end Answers

/-! ### One visit, one table -/

namespace Visit

open Instance.Visit (headers identity lib response)
open Manage.Console (config entitled user)

/-- The deployment of the visit. -/
abbrev stepVisit : State (· == ' ') lib → Label →
    Option (State (· == ' ') lib × List (Event (· == ' '))) :=
  step Nginx.Table.urls config

theorem gathers : ∃ incoming key, Decide.gather lib headers = .ok incoming ∧
    incoming.request.key = some key ∧
    incoming.session = some Instance.Visit.session ∧ incoming.request.uri = ['/'] ∧
    incoming.request.slug = "wiki".toList := by
  obtain ⟨incoming, key, gathered, keyed, known, _, uri⟩ := Instance.Visit.gathers
  have slug : ((Decide.gather lib headers).toOption.map fun incoming => incoming.request.slug) =
      some "wiki".toList := by
    decide +kernel
  rw [gathered] at slug
  exact ⟨incoming, key, gathered, keyed, known, uri, Option.some.inj slug⟩

variable {state : State (· == ' ') lib} {next : Instance.State lib} {events : List Instance.Event}

theorem decide_eq {label : Instance.Label} (quiet : loads label = false)
    (stepped : Instance.step (state.instances 0) label = some (next, events)) :
    stepVisit state (.decide 0 label) =
      some (state.on 0 next state.selected, events.map (.decided 0)) := by
  simp only [stepVisit, step, quiet, stepped]
  rfl

theorem move_eq {move : Instance.Move} {stage : Stage lib} {moved : Instance.Moved lib}
    (quiet : loads (.move 0 move) = false) (reached : (state.instances 0).stages 0 = stage)
    (advanced : advance (state.instances 0) 0 move stage = some moved) :
    stepVisit state (.decide 0 (.move 0 move)) = some (state.on 0
      ⟨moved.cache, moved.fill, Function.update (state.instances 0).stages 0 moved.stage⟩
        state.selected,
      moved.out.map (.decided 0)) :=
  decide_eq quiet (Instance.step_move_eq reached advanced)

theorem select_eq {incoming : Incoming lib} {setCookie : List HeaderValue} {session : Str}
    {row : ApplicationRow}
    (reached : (state.instances 0).stages 0 = .loading incoming user setCookie session)
    (unselected : state.selected (0, 0) = none)
    (found : Store.findSlug state.tables.db incoming.request.slug = some row) :
    stepVisit state (.select 0 0 true) = some ({ state with
      selected := Function.update state.selected (0, 0) (some (row.id, row.enabled)) }, []) := by
  simp only [stepVisit, step, reached, unselected, found]
  rfl

theorem fetch_eq {incoming : Incoming lib} {setCookie : List HeaderValue} {session : Str}
    {pair : Uuid × Bool}
    {rules : Store.AppRules}
    (reached : (state.instances 0).stages 0 = .loading incoming user setCookie session)
    (selected : state.selected (0, 0) = some pair)
    (answered : fetched state.tables (.table _) pair incoming.request.slug (lib.http.text user.sub)
      (groupsOf lib.http user) = some (some rules)) :
    stepVisit state (.fetch 0 0 (some (.table _))) = some (state.on 0
      ⟨(state.instances 0).cache, (state.instances 0).fill,
        Function.update (state.instances 0).stages 0
        (.filling incoming (cachedOf user (some rules)) setCookie session)⟩
      (Function.update state.selected (0, 0) none),
      [.decided 0 (.loaded (originOf 0 incoming) (some rules))]) := by
  have advanced : advance (state.instances 0) 0 (.loaded (fetched state.tables (.table _) pair))
      (.loading incoming user setCookie session) = some ((state.instances 0).next
        (.filling incoming (cachedOf user (some rules)) setCookie session)
        [.loaded (originOf 0 incoming) (some rules)]) := by
    simp only [advance, answered]
  simp only [stepVisit, step, selected, load, Instance.step_move_eq reached advanced]
  rfl

/-- **The visit**, in a deployment with the one application and its one entitlement. -/
theorem run : ∃ trace state,
    Run stepVisit (fun state _ => state.tables = entitled) (.init entitled) trace state ∧
    ∃ before origin response after,
    trace = before ++ .decided 0 (.answered origin 0 response) :: after ∧
      origin.slug = "wiki".toList ∧ origin.uri = ['/'] ∧ response.identity = some user ∧
      response.status = 200 := by
  obtain ⟨incoming, key, gathered, keyed, known, uri, slug⟩ := gathers
  obtain ⟨row, found, pair⟩ : ∃ row, Store.findSlug entitled.db incoming.request.slug = some row ∧
      (row.id, row.enabled) = (1, true) := by
    rw [slug]
    exact ⟨_, rfl, rfl⟩
  have verified : Decide.authenticate (response (asBytes "u1".toList)) = .verified user [] :=
    Instance.Visit.verified (by decide +kernel)
  have arrived : Instance.step (.init lib) (.arrive 0 headers) =
      some (⟨.init, fun _ => none, Function.update (fun _ => .idle) 0 (.looking incoming false)⟩,
        [.arrived (originOf 0 incoming)]) := by
    simp only [Instance.step, Instance.State.init, gathered, keyed, Option.isSome_some, if_true]
  have flagged : ∀ (fill : Nat → Option Nat) (stages : Nat → Stage lib) (locked : Bool),
      advance (⟨.init, fill, stages⟩ : Instance.State lib) 0 .flag (.looking incoming locked) =
        some ⟨.init, fill, Instance.missed incoming locked,
            [.consulted (originOf 0 incoming) false]⟩ :=
    fun _ _ _ => rfl
  have acquired : ∀ stages : Nat → Stage lib,
      advance (⟨.init, fun _ => none, stages⟩ : Instance.State lib) 0 .acquire (.queued incoming) =
        some ⟨.init, Function.update (fun _ => none) (Instance.shardOf lib key) (some 0),
          .looking incoming true, []⟩ := by
    intro stages
    simp only [advance, keyed, if_true]
  have authenticated : ∀ (fill : Nat → Option Nat) (stages : Nat → Stage lib),
      advance (⟨.init, fill, stages⟩ : Instance.State lib) 0
        (.authenticated (response (asBytes "u1".toList))) (.authenticating incoming) =
        some ⟨.init, fill, .indexing incoming user [] Instance.Visit.session,
          [.authenticated (originOf 0 incoming) user]⟩ := by
    intro fill stages
    simp only [advance, verified, known]
    rfl
  have indexed : ∀ (fill : Nat → Option Nat) (stages : Nat → Stage lib),
      advance (⟨.init, fill, stages⟩ : Instance.State lib) 0 (.indexed true)
        (.indexing incoming user [] Instance.Visit.session) =
        some ⟨.init, fill, .loading incoming user [] Instance.Visit.session,
          [.indexed (originOf 0 incoming) (lib.http.text user.sub) Instance.Visit.session]⟩ :=
    fun _ _ => rfl
  have answer :
    fetched entitled (.table _) (row.id, row.enabled) incoming.request.slug (lib.http.text user.sub)
      (groupsOf lib.http user) = some (some ⟨1, true, [⟨.allow, [], none⟩]⟩) := by
    rw [pair]
    show fetched entitled (.table _) (1, true) [] (lib.http.text user.sub)
      (groupsOf lib.http user) = _
    decide +kernel
  have inserted : ∀ (fill : Nat → Option Nat) (stages : Nat → Stage lib) (cached : Cached),
      ∃ cache, advance (⟨.init, fill, stages⟩ : Instance.State lib) 0 (.insert (.table Key))
        (.filling incoming cached [] Instance.Visit.session) =
        some ⟨cache, fill, .answering incoming cached [], [.inserted (originOf 0 incoming) 0]⟩ := by
    intro fill stages cached
    obtain ⟨cache, stepped⟩ := Cache.exists_step_insert lib.http lib.pathHash .init key
      (lib.http.text cached.identity.sub) cached (.table Key)
    refine ⟨cache, ?_⟩
    simp only [advance, keyed, stepped]
    rfl
  have answered :
    ∀ (cache : Cache.State) (fill : Nat → Option Nat) (stages : Nat → Stage lib) (cached : Cached),
      ∃ taken cache', advance (⟨cache, fill, stages⟩ : Instance.State lib) 0 (.answer 0 0)
        (.answering incoming cached []) = some ⟨cache', Instance.release fill 0, .done,
          [.audit (.took taken), .answered (originOf 0 incoming) 0
            (Decide.answered (cached.decision incoming.request.uri 0) cached.identity [])]⟩ := by
    intro cache fill stages cached
    obtain ⟨taken, cache', stepped⟩ :=
      Cache.exists_step_answer lib.http lib.pathHash cache incoming.request
      cached 0 0
    refine ⟨taken, cache', ?_⟩
    simp only [advance, stepped]
    rfl
  have first : Run stepVisit (fun state _ => state.tables = entitled) (.init entitled) _ _ :=
    .single rfl (decide_eq rfl arrived)
  have second := first.next rfl (move_eq rfl rfl (flagged _ _ _))
  have third := second.next rfl (move_eq rfl rfl (acquired _))
  have fourth := third.next rfl (move_eq rfl rfl (flagged _ _ _))
  have fifth := fourth.next rfl (move_eq rfl rfl (authenticated _ _))
  have sixth := fifth.next rfl (move_eq rfl rfl (indexed _ _))
  have seventh := sixth.next rfl (select_eq rfl rfl found)
  have eighth := seventh.next rfl (fetch_eq rfl rfl answer)
  obtain ⟨cache, filled⟩ := inserted _ _ _
  have ninth := eighth.next rfl (move_eq rfl rfl filled)
  obtain ⟨taken, last, done⟩ := answered _ _ _ _
  have tenth := ninth.next rfl (move_eq rfl rfl done)
  have allowed : Policy.decide true [⟨.allow, [], none⟩] incoming.request.uri 0 = .allow := by
    rw [uri]
    decide +kernel
  exact ⟨_, _, tenth, _, originOf 0 incoming, _, [], List.append_cons _ _ _, slug, uri, rfl,
    Decide.status_answered.mpr allowed⟩

end Visit

open Visit in
theorem answered_from_visit : ∃ before origin response, response.status = 200 ∧
    AnsweredFrom Instance.Visit.lib Manage.Console.entitled before 0 origin 0 response := by
  obtain ⟨trace, state, run, before, origin, response, after, shape, _, _, _, status⟩ := run
  exact ⟨before, origin, response, status,
    answered_from _ _ _ run before 0 origin 0 response after shape⟩

end OpenBerat.Deployment
