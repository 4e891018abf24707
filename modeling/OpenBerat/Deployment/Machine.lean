/-
**One deployment: the tables under all instances.**

The management plane writes the tables and every instance of `/decide` reads them. `rules_for` is
two statements, first the application of the slug and then the rules for its id, and the tables may
change between the two. Everything else an instance does is a step of its own.

* `tablesAt`: the tables after a part of the trace.
* `torn`: what is decided from an application of one moment and the rules of a later one.
* `step_manage`, `step_decide`, `step_select`, `step_fetch`: what one step of the deployment can do.
-/

import OpenBerat.Instance
import OpenBerat.Manage.Effects

namespace OpenBerat.Deployment

open Lib (Plan)
open Manage (Commit Config Outside Request Tables)
open Validate (UrlParser)

/-! ### The machine -/

/-- The tables, the instances before them, and the statements under way. -/
structure State (space : Char → Bool) (lib : Libraries) where
  tables : Tables space
  instances : Nat → Instance.State lib
  /-- By instance and request: what the first statement of `rules_for` has answered. -/
  selected : Nat × Nat → Option (Uuid × Bool)

/-- A call of the management plane, a step of an instance, and the two statements of `rules_for`. -/
inductive Label
  | manage (request : Request) (outside : Outside)
  | decide (node : Nat) (label : Instance.Label)
  /-- `select id, enabled from application`. -/
  | select (node request : Nat) (answers : Bool)
  /-- `select effect, path_pattern, expires_at from entitlement`; nothing where it fails. -/
  | fetch (node request : Nat) (plan : Option (Plan EntitlementRow))

/-- Nothing is cached and nobody is asking. -/
def State.init {space : Char → Bool} {lib : Libraries} (tables : Tables space) : State space lib :=
  ⟨tables, fun _ => .init lib, fun _ => none⟩

/-- What a run shows; a commit with the tables it leaves. -/
inductive Event (space : Char → Bool)
  | committed (commit : Commit) (tables : Tables space)
  | decided (node : Nat) (event : Instance.Event)

section Machine

variable {space : Char → Bool} {lib : Libraries}

/-- The label ends `rules_for`, which has steps of its own here. -/
def loads : Instance.Label → Bool
  | .move _ (.loaded _) => true
  | _ => false

/-- One instance goes on. -/
def State.on (state : State space lib) (node : Nat) (instance' : Instance.State lib)
    (selected : Nat × Nat → Option (Uuid × Bool)) : State space lib :=
  ⟨state.tables, Function.update state.instances node instance', selected⟩

/-- `rules_for` returns. -/
def load (state : State space lib) (node request : Nat) (query : Query) :
    Option (State space lib × List (Event space)) :=
  (Instance.step (state.instances node) (.move request (.loaded query))).map fun (next, out) =>
    (state.on node next (Function.update state.selected (node, request) none),
      out.map (.decided node))

/-- The rules behind the second statement. -/
def fetched (tables : Tables space) (plan : Plan EntitlementRow) (selected : Uuid × Bool) : Query :=
  fun _ sub groups => some (some
    { id := selected.1
      enabled := selected.2
      rules := (plan.arrange (tables.entitlements.filter
        (Store.applicable selected.1 sub groups))).map Store.ruleOfRow })

variable (urls : UrlParser) (config : Config) in
/-- One step of the deployment, and what it shows. -/
def step (state : State space lib) : Label → Option (State space lib × List (Event space))
  | .manage request outside =>
    (Manage.step urls config lib state.tables (request, outside)).map fun (tables, commits) =>
      ({ state with tables := tables }, commits.map fun commit => .committed commit tables)
  | .decide node label =>
    if loads label then none
    else (Instance.step (state.instances node) label).map fun (next, out) =>
      (state.on node next state.selected, out.map (.decided node))
  | .select node request answers =>
    match (state.instances node).stages request, state.selected (node, request) with
    | .loading incoming _ _ _, none =>
      if answers then
        match Store.findSlug state.tables.db incoming.request.slug with
        | none => load state node request fun _ _ _ => some none
        | some app =>
          some ({ state with
            selected := Function.update state.selected (node, request)
              (some (app.id, app.enabled)) }, [])
      else load state node request fun _ _ _ => none
    | _, _ => none
  | .fetch node request plan =>
    match state.selected (node, request) with
    | none => none
    | some selected =>
      match plan with
      | none => load state node request fun _ _ _ => none
      | some plan => load state node request (fetched state.tables plan selected)

/-! ### What is read -/

/-- The tables after a part of the trace. -/
def tablesAt (start : Tables space) (past : List (Event space)) : Tables space :=
  past.foldl (fun tables event => match event with
    | .committed _ next => next
    | .decided .. => tables) start

/-- The first statement's answer. -/
def selection (tables : Tables space) (slug : Str) : Option (Uuid × Bool) :=
  (Store.findSlug tables.db slug).map fun app => (app.id, app.enabled)

/-- The decision from the application of an early moment and the rules of a later one. -/
def torn (http : HeaderText) (early late : Tables space) (slug : Str) (identity : Identity)
    (uri : Str) (now : DateTime) : Decision :=
  match selection early slug with
  | none => Policy.decide false [] uri now
  | some (id, enabled) =>
    Policy.decide enabled (late.rules id (http.text identity.sub) (groupsOf http identity)) uri now

theorem selection_stored {tables : Tables space} {app : Nginx.Application}
    (member : app ∈ tables.applications) :
    selection tables app.slug = some (app.id, app.enabled) := by
  have found : Store.findSlug tables.db app.slug =
      some (Manage.Tables.applicationRow app (tables.applicationChecks app member)) :=
    Store.findSlug_eq_some.mpr ⟨Manage.Tables.mem_db.mpr ⟨app, member, rfl⟩, rfl⟩
  unfold selection
  rw [found]
  rfl

theorem selection_absent {tables : Tables space} {slug : Str}
    (absent : slug ∉ tables.applications.map (·.slug)) : selection tables slug = none := by
  unfold selection
  rw [Option.map_eq_none_iff, Option.eq_none_iff_forall_ne_some]
  intro row found
  obtain ⟨stored, same⟩ := Store.findSlug_eq_some.mp found
  obtain ⟨app, member, rfl⟩ := Manage.Tables.mem_db.mp stored
  exact absent (same ▸ List.mem_map_of_mem member)

/-- **Read at one moment** it is the decision of that moment. -/
theorem torn_self {http : HeaderText} {tables : Tables space} {plan : Plan EntitlementRow}
    {slug : Str} {identity : Identity} {uri : Str} {now : DateTime} :
    torn http tables tables slug identity uri now =
      missDecision http tables.db plan slug identity uri now := by
  unfold torn
  by_cases listed : slug ∈ tables.applications.map (·.slug)
  · obtain ⟨app, member, rfl⟩ := List.mem_map.mp listed
    rw [selection_stored member, Manage.Tables.decision_stored member]
  · rw [selection_absent listed, Manage.Tables.decision_absent listed]

theorem tablesAt_decided {start : Tables space} {past : List (Event space)} {node : Nat}
    (out : List Instance.Event) :
    tablesAt start (past ++ out.map (.decided node)) = tablesAt start past := by
  unfold tablesAt
  rw [List.foldl_append]
  induction out with
  | nil => rfl
  | cons event out ih => exact ih

/-! ### What one step does -/

section Steps

variable {urls : UrlParser} {config : Config} {state next : State space lib}
  {out : List (Event space)}

theorem load_eq_some {node request : Nat} {query : Query}
    (loaded : load state node request query = some (next, out)) :
    ∃ instance' events, Instance.step (state.instances node) (.move request (.loaded query)) =
        some (instance', events) ∧ out = events.map (.decided node) ∧
      next = state.on node instance' (Function.update state.selected (node, request) none) := by
  obtain ⟨⟨instance', events⟩, stepped, same⟩ := Option.map_eq_some_iff.mp loaded
  cases same
  exact ⟨instance', events, stepped, rfl, rfl⟩

theorem step_manage {request : Request} {outside : Outside}
    (stepped : step urls config state (.manage request outside) = some (next, out)) :
    ∃ tables commits,
    Manage.step urls config lib state.tables (request, outside) = some (tables, commits) ∧
      out = commits.map (.committed · tables) ∧ next = { state with tables := tables } := by
  simp only [step] at stepped
  obtain ⟨⟨tables, commits⟩, done, same⟩ := Option.map_eq_some_iff.mp stepped
  cases same
  exact ⟨tables, commits, done, rfl, rfl⟩

theorem step_decide {node : Nat} {label : Instance.Label}
    (stepped : step urls config state (.decide node label) = some (next, out)) :
    ∃ instance' events, loads label = false ∧
      Instance.step (state.instances node) label = some (instance', events) ∧
      out = events.map (.decided node) ∧ next = state.on node instance' state.selected := by
  simp only [step] at stepped
  split_ifs at stepped with loading
  obtain ⟨⟨instance', events⟩, done, same⟩ := Option.map_eq_some_iff.mp stepped
  cases same
  exact ⟨instance', events, Bool.eq_false_iff.mpr loading, done, rfl, rfl⟩

/-- The first statement: the application is there, or `rules_for` returns. -/
theorem step_select {node request : Nat} {answers : Bool}
    (stepped : step urls config state (.select node request answers) = some (next, out)) :
    ∃ incoming identity setCookie session,
      (state.instances node).stages request = .loading incoming identity setCookie session ∧
      ((∃ selected, selection state.tables incoming.request.slug = some selected ∧ out = [] ∧
          next = { state with
            selected := Function.update state.selected (node, request) (some selected) }) ∨
        ∃ query, load state node request query = some (next, out) ∧
          ∀ slug sub groups found, query slug sub groups = some found →
            selection state.tables incoming.request.slug = none ∧ found = none) := by
  simp only [step] at stepped
  split at stepped
  · rename_i incoming identity setCookie session stage _
    refine ⟨incoming, identity, setCookie, session, stage, ?_⟩
    unfold selection
    split_ifs at stepped with answered
    · split at stepped
      · rename_i absent
        rw [absent]
        refine Or.inr ⟨_, stepped, fun slug sub groups found same => ⟨rfl, ?_⟩⟩
        exact (Option.some.inj same).symm
      · rename_i app found
        rw [found]
        cases stepped
        exact Or.inl ⟨_, rfl, rfl, rfl⟩
    · exact Or.inr ⟨_, stepped, fun slug sub groups found same => nomatch same⟩
  · cases stepped

/-- The second statement. -/
theorem step_fetch {node request : Nat} {plan : Option (Plan EntitlementRow)}
    (stepped : step urls config state (.fetch node request plan) = some (next, out)) :
    ∃ selected query, state.selected (node, request) = some selected ∧
      load state node request query = some (next, out) ∧
      ∀ slug sub groups found, query slug sub groups = some found →
        ∃ plan, fetched state.tables plan selected slug sub groups = some found := by
  simp only [step] at stepped
  split at stepped
  · cases stepped
  · rename_i selected known
    refine ⟨selected, ?_⟩
    cases plan with
    | none => exact ⟨_, known, stepped, fun slug sub groups found same => nomatch same⟩
    | some plan => exact ⟨_, known, stepped, fun slug sub groups found same => ⟨plan, same⟩⟩

end Steps

end Machine

end OpenBerat.Deployment
