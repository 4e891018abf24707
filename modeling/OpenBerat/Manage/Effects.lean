/-
**What a change does.**

A run of the management plane is a sequence of changes, each made by an administrator. What the
tables hold, what the generated configuration serves and what a decision says are functions of that
sequence.

* `applied_of_step`: a step is one change, or none.
* `replay`: the tables are the replay of the changes.
* `published_exactly`: every enabled row is served, once and nothing else.
* `opened`: who opens an application to a user, and how.
* `stale_block`: a decision for a block that an older table has rendered.
-/

import OpenBerat.Lib.History
import OpenBerat.Manage.Plane
import OpenBerat.Policy.RuleSet

namespace OpenBerat.Manage

open Lib (Plan Run Standing standing_concat)
open Nginx (Application ApplicationPatch Stored Target)
open Policy (live matchesPattern readings)
open Validate (UrlParser)

section Effects

variable {space : Char → Bool} {urls : UrlParser} {config : Config} {lib : Libraries}

/-! ### One change -/

/-- A row that `create_entitlement` has let through. -/
def Granted (row : EntitlementRow) : Prop :=
  ∃ new typed checks,
    Schema.createEntitlement new = .ok typed ∧ row = entitlementRow row.id typed checks

/-- What a change makes of the tables. -/
def Applied (urls : UrlParser) (portalOrigin : Str) (tables next : Tables space) : Change → Prop
  | .created app => (∃ new, Nginx.createApplication urls portalOrigin app.id new = .ok app) ∧
      app.id ∉ tables.applications.map (·.id) ∧ app.slug ∉ tables.applications.map (·.slug) ∧
      next.applications = app :: tables.applications ∧ next.entitlements = tables.entitlements
  | .updated app => (∃ old ∈ tables.applications,
        (∃ patch, Nginx.updateApplication urls patch old = .ok app) ∧ app.id = old.id ∧
          app.slug = old.slug ∧ app.externalHostname = old.externalHostname) ∧
      next.applications = tables.replaced app ∧ next.entitlements = tables.entitlements
  | .deleted id => id ∈ tables.applications.map (·.id) ∧ next = tables.deleteApplication id
  | .granted row => Granted row ∧ next.applications = tables.applications ∧
      next.entitlements = row :: tables.entitlements
  | .revoked id => id ∈ tables.entitlements.map (·.id) ∧ next = tables.deleteEntitlement id

variable {tables next : Tables space}

/-- A statement is done, or it is as if it had not been tried. -/
theorem conclude_cases (outcome : Outcome) (result : Except Violation (Handled space)) :
    (∃ response, conclude tables outcome result = tables.answer response) ∨
      ∃ served response, result = .ok served ∧
        conclude tables outcome result = { served with response := response } := by
  unfold conclude
  cases result with
  | error violation =>
    cases outcome with
    | answered => exact Or.inl ⟨_, rfl⟩
    | lost => exact Or.inl ⟨_, rfl⟩
    | failed => exact Or.inl ⟨_, rfl⟩
  | ok served =>
    cases outcome with
    | answered => exact Or.inr ⟨served, served.response, rfl, rfl⟩
    | lost => exact Or.inr ⟨served, .unavailable, rfl, rfl⟩
    | failed => exact Or.inl ⟨_, rfl⟩

/-- The columns that the checks leave, written into the row. -/
theorem updateApplication_eq {patch columns : ApplicationPatch}
    (checked : validatePatch urls patch = .ok columns) (app : Application) :
    Nginx.updateApplication urls patch app = .ok (applyPatch columns app) := by
  unfold validatePatch at checked
  simp only [Validate.bind_eq_ok] at checked
  obtain ⟨upstream, passed, name, named, icon, drawn, same⟩ := checked
  cases same
  unfold Nginx.updateApplication
  rw [passed, named, drawn]
  rfl

variable (urls config tables) in
/-- One change and what it makes of the tables, or no change. -/
def OneChange (served : Handled space) : Prop :=
  (∃ response, served = tables.answer response) ∨
    ∃ change, served.changes = [change] ∧
      Applied urls config.portalOrigin tables served.tables change

theorem oneChange_conclude {outcome : Outcome} {result : Except Violation (Handled space)}
    (done : ∀ served, result = .ok served → OneChange urls config tables served) :
    OneChange urls config tables (conclude tables outcome result) := by
  rcases conclude_cases outcome result with quiet | ⟨served, response, same, concluded⟩
  · exact Or.inl quiet
  · rw [concluded]
    rcases done served same with ⟨_, rfl⟩ | ⟨change, made, applied⟩
    · exact Or.inl ⟨response, rfl⟩
    · exact Or.inr ⟨change, made, applied⟩

theorem oneChange_create (outside : Outside) (new : Nginx.NewApplication) :
    OneChange urls config tables (createApplication urls config tables outside new) := by
  unfold createApplication
  cases created : Nginx.createApplication urls config.portalOrigin outside.id new with
  | error why => exact Or.inl ⟨_, rfl⟩
  | ok app =>
    refine oneChange_conclude fun served done => ?_
    cases inserted : tables.insertApplication app with
    | error violation =>
      rw [inserted] at done
      cases done
    | ok next =>
      rw [inserted] at done
      cases done
      have own : app.id = outside.id := by
        unfold Nginx.createApplication at created
        simp only [Validate.bind_eq_ok] at created
        obtain ⟨_, _, _, _, _, _, _, _, _, _, same⟩ := created
        cases same
        rfl
      obtain ⟨applications, entitlements, id, slug⟩ := Tables.insertApplication_eq_ok inserted
      exact Or.inr ⟨_, rfl, ⟨new, own ▸ created⟩, id, slug, applications, entitlements⟩

theorem oneChange_update (outside : Outside) (id : Uuid) (patch : ApplicationPatch) :
    OneChange urls config tables (updateApplication urls tables outside id patch) := by
  unfold updateApplication
  cases checked : validatePatch urls patch with
  | error why => exact Or.inl ⟨_, rfl⟩
  | ok columns =>
    refine oneChange_conclude fun served done => ?_
    cases updated : tables.updateApplication id columns with
    | error violation =>
      rw [updated] at done
      cases done
    | ok found =>
      rw [updated] at done
      cases found with
      | none =>
        cases done
        exact Or.inl ⟨_, rfl⟩
      | some pair =>
        cases done
        obtain ⟨old, member, rfl, same, applications, entitlements⟩ :=
          Tables.updateApplication_eq_ok updated
        refine Or.inr ⟨_, rfl, ⟨old, member, ⟨patch, ?_⟩, ?_⟩, applications, entitlements⟩
        · rw [same]
          exact updateApplication_eq checked old
        · rw [same]
          exact ⟨rfl, rfl, rfl⟩

theorem oneChange_grant (outside : Outside) (new : Schema.NewEntitlement) :
    OneChange urls config tables (createEntitlement tables outside new) := by
  unfold createEntitlement
  cases created : Schema.createEntitlement new with
  | error why => exact Or.inl ⟨_, rfl⟩
  | ok typed =>
    refine oneChange_conclude fun served done => ?_
    cases inserted : tables.insertEntitlement outside.id typed with
    | error violation =>
      rw [inserted] at done
      cases done
    | ok pair =>
      rw [inserted] at done
      cases done
      obtain ⟨⟨checks, row⟩, applications, entitlements⟩ := Tables.insertEntitlement_eq_ok inserted
      refine Or.inr ⟨_, rfl, ⟨new, typed, checks, created, ?_⟩, applications, entitlements⟩
      rw [row]
      rfl

theorem oneChange_delete (outside : Outside) (id : Uuid) :
    OneChange urls config tables (deleteApplication tables outside id) := by
  refine oneChange_conclude fun served done => ?_
  cases done
  split
  · rename_i stored
    exact Or.inr ⟨_, rfl, Tables.has_iff.mp stored, rfl⟩
  · exact Or.inl ⟨_, rfl⟩

theorem oneChange_revoke (outside : Outside) (id : Uuid) :
    OneChange urls config tables (deleteEntitlement tables outside id) := by
  refine oneChange_conclude fun served done => ?_
  cases done
  split
  · rename_i stored
    exact Or.inr ⟨_, rfl, Tables.has_iff.mp stored, rfl⟩
  · exact Or.inl ⟨_, rfl⟩

theorem oneChange_handle (outside : Outside) (body : Body) (found : Endpoint) :
    OneChange urls config tables (handle urls config tables outside body found) := by
  cases reads : found.reads with
  | true => exact Or.inl (handle_reads reads)
  | false =>
    cases found with
    | createApplication =>
      cases body with
      | application new => exact oneChange_create outside new
      | _ => exact Or.inl ⟨_, rfl⟩
    | updateApplication id =>
      cases id with
      | none => exact Or.inl ⟨_, rfl⟩
      | some id =>
        cases body with
        | patch patch => exact oneChange_update outside id patch
        | _ => exact Or.inl ⟨_, rfl⟩
    | deleteApplication id =>
      cases id with
      | none => exact Or.inl ⟨_, rfl⟩
      | some id => exact oneChange_delete outside id
    | createEntitlement =>
      cases body with
      | entitlement new => exact oneChange_grant outside new
      | _ => exact Or.inl ⟨_, rfl⟩
    | deleteEntitlement id =>
      cases id with
      | none => exact Or.inl ⟨_, rfl⟩
      | some id => exact oneChange_revoke outside id
    | kill sub => exact Or.inl ⟨_, rfl⟩
    | resetSecondFactor => exact Or.inl ⟨_, rfl⟩
    | _ => cases reads

/-- **A step** is one change, or none. -/
theorem applied_of_step {label : Request × Outside} {out : List Commit}
    (stepped : step urls config lib tables label = some (next, out)) :
    next = tables ∧ out = [] ∨ ∃ commit, out = [commit] ∧ Author lib config commit ∧
      Applied urls config.portalOrigin tables next commit.change := by
  cases stepped
  have one : OneChange urls config tables (serve urls config tables lib label.1 label.2) := by
    rcases serve_cases tables label.1 label.2 with ⟨refusal, _, same⟩ | ⟨found, _, same⟩
    · exact Or.inl ⟨refusal, same⟩
    · rw [same]
      exact oneChange_handle label.2 label.1.body found
  rcases one with ⟨response, quiet⟩ | ⟨change, made, applied⟩
  · rw [quiet]
    exact Or.inl ⟨rfl, rfl⟩
  · refine Or.inr ⟨⟨label.1, label.2, change⟩, by rw [made]; rfl, ?_, applied⟩
    exact @author_of_mem _ urls _ _ tables _ _ _ (by rw [made]; exact List.mem_cons_self)

/-! ### The tables as a replay -/

/-- A change that puts this row of `application` in place. -/
def Change.puts (app : Application) : Change → Prop
  | .created new => new = app
  | .updated new => new = app
  | _ => False

/-- A change that takes it away. -/
def Change.drops (app : Application) : Change → Prop
  | .updated new => new.id = app.id
  | .deleted id => app.id = id
  | _ => False

/-- A change that makes this row of `entitlement`. -/
def Change.grants (row : EntitlementRow) : Change → Prop
  | .granted new => new = row
  | _ => False

/-- A change that takes it away. -/
def Change.voids (row : EntitlementRow) : Change → Prop
  | .deleted id => row.applicationId = some id
  | .revoked id => row.id = id
  | _ => False

theorem Tables.mem_replaced_iff {old new app : Application} (member : old ∈ tables.applications)
    (same : new.id = old.id) :
    app ∈ tables.replaced new ↔ app = new ∨ app ∈ tables.applications ∧ app.id ≠ new.id := by
  refine ⟨Tables.mem_replaced, ?_⟩
  rintro (rfl | ⟨stored, other⟩)
  · exact List.mem_map.mpr ⟨old, member, if_pos same.symm⟩
  · exact List.mem_map.mpr ⟨app, stored, if_neg other⟩

theorem Applied.applications {change : Change} {portalOrigin : Str}
    (applied : Applied urls portalOrigin tables next change) (app : Application) :
    app ∈ next.applications ↔ change.puts app ∨ app ∈ tables.applications ∧ ¬ change.drops app := by
  cases change with
  | created new =>
    obtain ⟨_, _, _, same, _⟩ := applied
    rw [same, List.mem_cons, eq_comm]
    exact or_congr_right (and_iff_left not_false).symm
  | updated new =>
    obtain ⟨⟨old, member, _, kept, _⟩, same, _⟩ := applied
    rw [same, Tables.mem_replaced_iff member kept, eq_comm, ne_comm]
    rfl
  | deleted id =>
    obtain ⟨_, rfl⟩ := applied
    exact Tables.mem_deleteApplication.trans (or_iff_right not_false).symm
  | granted row =>
    obtain ⟨_, same, _⟩ := applied
    rw [same]
    exact (and_iff_left not_false).symm.trans (or_iff_right not_false).symm
  | revoked id =>
    obtain ⟨_, rfl⟩ := applied
    exact (and_iff_left not_false).symm.trans (or_iff_right not_false).symm

theorem Applied.entitlements {change : Change} {portalOrigin : Str}
    (applied : Applied urls portalOrigin tables next change) (row : EntitlementRow) :
    row ∈ next.entitlements ↔
      change.grants row ∨ row ∈ tables.entitlements ∧ ¬ change.voids row := by
  have idle : row ∈ tables.entitlements ↔ False ∨ row ∈ tables.entitlements ∧ ¬ False :=
    (and_iff_left not_false).symm.trans (or_iff_right not_false).symm
  cases change with
  | created new =>
    obtain ⟨_, _, _, _, same⟩ := applied
    rw [same]
    exact idle
  | updated new =>
    obtain ⟨_, _, same⟩ := applied
    rw [same]
    exact idle
  | deleted id =>
    obtain ⟨_, rfl⟩ := applied
    exact Tables.entitlement_deleteApplication.trans (or_iff_right not_false).symm
  | granted new =>
    obtain ⟨_, _, same⟩ := applied
    rw [same, List.mem_cons, eq_comm]
    exact or_congr_right (and_iff_left not_false).symm
  | revoked id =>
    obtain ⟨_, rfl⟩ := applied
    exact Tables.mem_deleteEntitlement.trans (or_iff_right not_false).symm

variable {trace : List Commit} {allowed : Tables space → Request × Outside → Prop}

/-- **The tables are the replay of the changes**: an application is what was last put under its id
and not deleted since, an entitlement is a grant that was not revoked, its application not
deleted. -/
theorem replay (urls : UrlParser) (config : Config) (lib : Libraries)
    (run : Run (step urls config lib) allowed Tables.empty trace tables) :
    (∀ app, app ∈ tables.applications ↔ Standing (·.change.puts app) (·.change.drops app) trace) ∧
      ∀ row, row ∈ tables.entitlements ↔
        Standing (·.change.grants row) (·.change.voids row) trace := by
  refine @Run.invariant _ _ _ _ _ _ (fun trace (tables : Tables space) =>
    (∀ app, app ∈ tables.applications ↔ Standing (·.change.puts app) (·.change.drops app) trace) ∧
      ∀ row, row ∈ tables.entitlements ↔ Standing (·.change.grants row) (·.change.voids row) trace)
    ⟨fun app => ?_, fun row => ?_⟩ ?_ _ _ run
  · exact iff_of_false (fun member => nomatch member) Lib.not_standing_nil
  · exact iff_of_false (fun member => nomatch member) Lib.not_standing_nil
  · rintro trace tables label next out ⟨applications, entitlements⟩ _ stepped
    rcases applied_of_step stepped with ⟨rfl, rfl⟩ | ⟨commit, rfl, _, applied⟩
    · rw [List.append_nil]
      exact ⟨applications, entitlements⟩
    · constructor
      · intro app
        rw [standing_concat, ← applications, applied.applications]
      · intro row
        rw [standing_concat, ← entitlements, applied.entitlements]

/-! ### What is published -/

variable (urls config) in
/-- Every row has passed the checks of its handler. -/
structure Sane (tables : Tables space) : Prop where
  applications : ∀ app ∈ tables.applications, Stored urls config.portalOrigin app
  entitlements : ∀ row ∈ tables.entitlements, Granted row

theorem sane_applied {change : Change} (sane : Sane urls config tables)
    (applied : Applied urls config.portalOrigin tables next change) : Sane urls config next := by
  constructor
  · intro app member
    rcases (applied.applications app).mp member with put | ⟨old, _⟩
    · cases change with
      | created new =>
        obtain rfl := put
        obtain ⟨⟨typed, created⟩, _⟩ := applied
        exact .created created
      | updated new =>
        obtain rfl := put
        obtain ⟨⟨old, stored, ⟨patch, updated⟩, _⟩, _⟩ := applied
        exact .updated (sane.applications old stored) updated
      | _ => cases put
    · exact sane.applications app old
  · intro row member
    rcases (applied.entitlements row).mp member with made | ⟨old, _⟩
    · cases change with
      | granted new =>
        obtain rfl := made
        exact applied.1
      | _ => cases made
    · exact sane.entitlements row old

theorem sane_of_run {start : Tables space} (sane : Sane urls config start)
    (run : Run (step urls config lib) allowed start trace tables) : Sane urls config tables := by
  refine @Run.invariant _ _ _ _ _ _ (fun _ tables => Sane urls config tables) sane ?_ _ _ run
  intro trace tables label next out sane _ stepped
  rcases applied_of_step stepped with ⟨rfl, _⟩ | ⟨commit, _, _, applied⟩
  · exact sane
  · exact sane_applied sane applied

theorem sane_empty : Sane urls config (Tables.empty : Tables space) :=
  ⟨fun _ member => (nomatch member), fun _ member => (nomatch member)⟩

theorem renderable_map_app (shown : urls.ShowsHosts) {portalOrigin : Str} {rows : List Application}
    (stored : ∀ app ∈ rows, Stored urls portalOrigin app) :
    (Nginx.renderable urls rows portalOrigin).map (·.app) = rows.filter (·.enabled) := by
  unfold Nginx.renderable
  rw [List.map_filterMap]
  refine (List.filterMap_congr fun app member => ?_).trans List.filterMap_some
  obtain ⟨target, found, same⟩ := Nginx.target_of_accepted shown
    (Nginx.stored_accepted (stored app (List.mem_of_mem_filter member)))
  rw [found, Option.map_some, same]

/-- **Every enabled row is served, and nothing else**: one block a row in both files, under a
hostname and a slug of its own. -/
theorem published_exactly (shown : urls.ShowsHosts) (sane : Sane urls config tables) :
    ∃ targets : List Target, targets.map (·.app) = tables.applications.filter (·.enabled) ∧
      Lib.Conf.read (Nginx.renderAppsConf urls tables.applications config.portalOrigin) =
        some (targets.map Nginx.appsServer) ∧
      Lib.Conf.read (Nginx.renderBreakglassConf urls tables.applications config.portalOrigin) =
        some (targets.map Nginx.breakglassServer) ∧
      (targets.map (·.app.externalHostname)).Nodup ∧
      (∀ target ∈ targets, Nginx.targetOf urls config.portalOrigin target.app = some target) ∧
      ∀ target ∈ targets, Nginx.Separate urls config.portalOrigin target := by
  obtain ⟨normal, breakglass, separate⟩ :=
    Nginx.conf_reads shown tables.applications config.portalOrigin
  have rows := renderable_map_app shown sane.applications
  refine ⟨_, rows, normal, breakglass, ?_, fun target member => ?_, separate⟩
  · have names : ((Nginx.renderable urls tables.applications config.portalOrigin).map (·.app)).map
        (·.externalHostname) =
            (tables.applications.filter (·.enabled)).map (·.externalHostname) := by
      rw [rows]
    rw [List.map_map] at names
    have distinct : ((tables.applications.filter (·.enabled)).map (·.externalHostname)).Nodup :=
      tables.hostnameUnique.sublist (List.filter_sublist.map _)
    rw [← names] at distinct
    exact distinct
  · obtain ⟨app, _, _, found⟩ := Nginx.mem_renderable.mp member
    obtain ⟨_, _, _, _, _, _, same, _⟩ := Nginx.targetOf_eq_some.mp found
    rw [same]
    exact found

/-! ### Who opens an application -/

section Opening

variable {http : HeaderText} {plan : Plan EntitlementRow} {slug : Str} {identity : Identity}
  {uri : Str} {now : DateTime}

/-- A row that speaks on this request. -/
structure Speaks (http : HeaderText) (app : Application) (identity : Identity) (uri : Str)
    (now : DateTime) (row : EntitlementRow) : Prop where
  applicable : Store.applicable app.id (http.text identity.sub) (groupsOf http identity) row = true
  live : live now (Store.ruleOfRow row) = true
  matched : ∃ paths, readings uri = .ok paths ∧ ∃ path ∈ paths,
    matchesPattern row.pathPattern path = true

/-- How a change opens an application to a request. -/
inductive Opens (tables : Tables space) (http : HeaderText) (slug : Str) (identity : Identity)
    (uri : Str) (now : DateTime) : Change → Prop
  | created {app : Application} : app.slug = slug → app.enabled = true →
      Opens tables http slug identity uri now (.created app)
  | enabled {old app : Application} : old ∈ tables.applications → old.id = app.id →
      app.slug = slug → old.enabled = false → app.enabled = true →
      Opens tables http slug identity uri now (.updated app)
  | granted {app : Application} {row : EntitlementRow} : app ∈ tables.applications →
      app.slug = slug → row.effect = "allow".toList → Speaks http app identity uri now row →
      Opens tables http slug identity uri now (.granted row)
  | revoked {app : Application} {row : EntitlementRow} : app ∈ tables.applications →
      app.slug = slug → row ∈ tables.entitlements → row.effect = "deny".toList →
      Speaks http app identity uri now row →
      Opens tables http slug identity uri now (.revoked row.id)

/-- An allow is for a stored application that is enabled. -/
theorem stored_of_allowed
    (allows : missDecision http tables.db plan slug identity uri now = .allow) :
    ∃ app ∈ tables.applications, app.slug = slug ∧ app.enabled = true ∧
      Policy.decide true (tables.rules app.id (http.text identity.sub) (groupsOf http identity)) uri
        now = .allow := by
  by_cases listed : slug ∈ tables.applications.map (·.slug)
  · obtain ⟨app, member, rfl⟩ := List.mem_map.mp listed
    rw [Tables.decision_stored member] at allows
    have enabled := (Policy.decide_eq_allow.mp allows).1
    rw [enabled] at allows
    exact ⟨app, member, rfl, enabled, allows⟩
  · rw [Tables.decision_absent listed] at allows
    cases (Policy.decide_eq_allow.mp allows).1

/-- The rows behind the rules. -/
theorem Tables.mem_rules {tables : Tables space} {id : Uuid} {sub : Str} {groups : List Str}
    {rule : Rule} :
    rule ∈ tables.rules id sub groups ↔ ∃ row ∈ tables.entitlements,
      Store.applicable id sub groups row = true ∧ Store.ruleOfRow row = rule := by
  unfold Tables.rules
  rw [List.mem_map]
  simp only [List.mem_filter, and_assoc]

theorem effect_of_rule {row : EntitlementRow} :
    ((Store.ruleOfRow row).effect = .deny → row.effect = "deny".toList) ∧
      ((Store.ruleOfRow row).effect = .allow → row.effect = "allow".toList) := by
  unfold Store.ruleOfRow Store.effectOf
  constructor
  · intro denies
    by_contra other
    rw [if_neg other] at denies
    cases denies
  · intro allows
    refine row.effectCheck.resolve_right fun denies => ?_
    rw [if_pos denies] at allows
    cases allows

/-- The rules of an enabled application open it by one grant more or one deny less. -/
theorem speaks_of_opens {app : Application}
    (refused : Policy.decide true
      (tables.rules app.id (http.text identity.sub) (groupsOf http identity))
      uri now ≠ .allow)
    (allows : Policy.decide true
      (next.rules app.id (http.text identity.sub) (groupsOf http identity))
      uri now = .allow) :
    (∃ row ∈ next.entitlements, row ∉ tables.entitlements ∧ row.effect = "allow".toList ∧
        Speaks http app identity uri now row) ∨
      ∃ row ∈ tables.entitlements, row ∉ next.entitlements ∧ row.effect = "deny".toList ∧
        Speaks http app identity uri now row := by
  obtain ⟨paths, read, path, member, ⟨rule, here, missing, current, kind, matched⟩ |
    ⟨rule, here, missing, current, kind, matched⟩⟩ := Policy.decide_opens refused allows
  · obtain ⟨row, stored, applies, rfl⟩ := Tables.mem_rules.mp here
    refine Or.inl ⟨row, stored, fun also => ?_, effect_of_rule.2 kind,
      applies, current, paths, read, path, member, matched⟩
    exact missing (Tables.mem_rules.mpr ⟨row, also, applies, rfl⟩)
  · obtain ⟨row, stored, applies, rfl⟩ := Tables.mem_rules.mp here
    refine Or.inr ⟨row, stored, fun also => ?_, effect_of_rule.1 kind,
      applies, current, paths, read, path, member, matched⟩
    exact missing (Tables.mem_rules.mpr ⟨row, also, applies, rfl⟩)

/-- **A change that opens an application** is one of four. -/
theorem opens_of_applied {change : Change} {portalOrigin : Str}
    (applied : Applied urls portalOrigin tables next change)
    (refused : missDecision http tables.db plan slug identity uri now ≠ .allow)
    (allows : missDecision http next.db plan slug identity uri now = .allow) :
    Opens tables http slug identity uri now change := by
  obtain ⟨app, member, rfl, enabled, decided⟩ := stored_of_allowed allows
  rcases (applied.applications app).mp member with put | ⟨stored, _⟩
  · cases change with
    | created new =>
      obtain rfl := put
      exact .created rfl enabled
    | updated new =>
      obtain rfl := put
      obtain ⟨⟨old, stored, _, id, slug, _⟩, _, entitlements⟩ := applied
      refine .enabled stored id.symm rfl ?_ enabled
      -- The rules are those of before, so the flag was not set.
      rw [slug, Tables.decision_stored stored] at refused
      have same : next.rules new.id = tables.rules old.id := by
        unfold Tables.rules
        rw [entitlements, id]
      by_contra already
      rw [Bool.not_eq_false] at already
      rw [already, ← same] at refused
      exact refused decided
    | _ => cases put
  · rw [Tables.decision_stored stored, enabled] at refused
    rcases speaks_of_opens refused decided with
      ⟨row, new, old, allow, speaks⟩ | ⟨row, old, new, deny, speaks⟩
    · rcases (applied.entitlements row).mp new with made | ⟨also, _⟩
      · cases change with
        | granted granted =>
          obtain rfl := made
          exact .granted stored rfl allow speaks
        | _ => cases made
      · exact absurd also old
    · have voided : change.voids row := by
        by_contra stays
        exact new ((applied.entitlements row).mpr (Or.inr ⟨old, stays⟩))
      cases change with
      | deleted id =>
        -- The entitlement applies to an application that is still there.
        obtain ⟨_, rfl⟩ := applied
        have applies := of_decide_eq_true speaks.applicable
        rw [show row.applicationId = some id from voided] at applies
        have here := Option.some.inj (applies.1.resolve_right (Option.some_ne_none id))
        exact absurd here.symm (Tables.mem_deleteApplication.mp member).2
      | revoked id =>
        obtain rfl : row.id = id := voided
        exact .revoked stored rfl old deny speaks
      | _ => cases voided

/-- **Nobody is let in but by an administrator.** On every run to an allow that was not one, an
administrator has made a change that opens the application to this very request. -/
theorem opened (urls : UrlParser) (config : Config) (lib : Libraries)
    (run : Run (step urls config lib) allowed tables trace next)
    (refused : missDecision http tables.db plan slug identity uri now ≠ .allow)
    (allows : missDecision http next.db plan slug identity uri now = .allow) :
    ∃ before middle commit after, Run (step urls config lib) allowed tables before middle ∧
      trace = before ++ commit :: after ∧ Author lib config commit ∧
      Opens middle http slug identity uri now commit.change := by
  obtain ⟨before, middle, label, later, out, after, first, _, stepped, off, on, _, rfl⟩ :=
    @Run.turn _ _ _ _ _ _
      (fun tables => missDecision http tables.db plan slug identity uri now = .allow)
      _ _ run refused allows
  rcases applied_of_step stepped with ⟨rfl, _⟩ | ⟨commit, rfl, author, applied⟩
  · exact absurd on off
  · refine ⟨before, middle, commit, after, first, ?_, author, opens_of_applied applied off on⟩
    rw [List.append_assoc, List.singleton_append]

end Opening

end Effects

/-! ### One application, one grant -/

open Console in
theorem replay_wiki : ∃ trace, RunWiki Tables.empty trace entitled ∧
    (∀ app, app ∈ entitled.applications ↔
      Standing (·.change.puts app) (·.change.drops app) trace) ∧
    ∀ row, row ∈ entitled.entitlements ↔
      Standing (·.change.grants row) (·.change.voids row) trace := by
  obtain ⟨first, before⟩ := run_created
  obtain ⟨second, after⟩ := run_granted
  exact ⟨first ++ second, before.trans after, replay _ _ _ (before.trans after)⟩

namespace Console

/-- A user without groups. -/
def user : Identity := ⟨asBytes "u1".toList, [], [], []⟩

theorem refused : missDecision .documented stored.db (.table _) "wiki".toList user
    ['/'] 0 ≠ .allow := by
  decide +kernel

theorem allows : missDecision .documented entitled.db (.table _) "wiki".toList user
    ['/'] 0 = .allow := by
  decide +kernel

end Console

open Console in
theorem opened_wiki : ∃ trace, RunWiki stored trace entitled ∧
    ∃ before middle commit after, RunWiki stored before middle ∧ trace = before ++ commit :: after ∧
      Author Instance.Visit.lib config commit ∧
      Opens middle .documented "wiki".toList user ['/'] 0 commit.change := by
  obtain ⟨trace, run⟩ := run_granted
  exact ⟨trace, run, opened _ _ _ run refused allows⟩

end OpenBerat.Manage
