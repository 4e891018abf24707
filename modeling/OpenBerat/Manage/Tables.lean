/-
**The two tables of the management plane.**

`application` and `entitlement` with every constraint of the schema: column checks, primary keys,
unique columns, the reference from one to the other. Five statements change them. A statement that
would break a constraint is refused, and what it leaves otherwise is tables again.

* `Tables.insertApplication`, `Tables.updateApplication`, `Tables.deleteApplication`,
  `Tables.insertEntitlement`, `Tables.deleteEntitlement`: the statements.
* `Tables.db`: the tables as the decision reads them.
-/

import OpenBerat.Miss
import OpenBerat.Schema

namespace OpenBerat.Manage

open Nginx (Application ApplicationPatch)
open Schema (ApplicationChecks Entitlement EntitlementChecks hostnamePattern slugPattern
  upstreamPattern)

/-! ### Column checks -/

/-- `upstream_url ~ '^https?://[^[:space:]]+$'`. -/
def upstreamShaped (space : Char → Bool) (raw : Str) : Bool :=
  ["http://".toList, "https://".toList].any fun scheme =>
    (stripPrefix scheme raw).any fun rest => !rest.isEmpty && rest.all fun char => !space char

section Checks

variable {space : Char → Bool}

theorem upstreamShaped_iff {raw : Str} :
    upstreamShaped space raw = true ↔ raw ∈ (upstreamPattern space).language := by
  unfold upstreamShaped
  rw [Schema.mem_upstreamPattern, List.any_eq_true]
  constructor
  · rintro ⟨scheme, listed, passes⟩
    obtain ⟨rest, found, good⟩ := (Option.any_eq_true _ _).mp passes
    rw [Bool.and_eq_true, Bool.not_eq_true', List.isEmpty_eq_false_iff, List.all_eq_true] at good
    refine ⟨rest, ?_, good.1, fun char member => Bool.not_eq_true' _ ▸ good.2 char member⟩
    have shape := stripPrefix_eq_some.mp found
    rcases List.mem_cons.mp listed with rfl | last
    · exact Or.inl shape
    · rw [List.mem_singleton.mp last] at shape
      exact Or.inr shape
  · rintro ⟨rest, shape, some, free⟩
    have good : (!rest.isEmpty && rest.all fun char => !space char) = true := by
      rw [Bool.and_eq_true, Bool.not_eq_true', List.isEmpty_eq_false_iff, List.all_eq_true]
      exact ⟨some, fun char member => by rw [free char member]; rfl⟩
    rcases shape with shape | shape
    · exact ⟨_, List.mem_cons_self,
        (Option.any_eq_true _ _).mpr ⟨rest, stripPrefix_eq_some.mpr shape, good⟩⟩
    · exact ⟨_, List.mem_cons_of_mem _ List.mem_cons_self,
        (Option.any_eq_true _ _).mpr ⟨rest, stripPrefix_eq_some.mpr shape, good⟩⟩

theorem slugShaped_iff {slug : Str} :
    shaped (· == '-') true slug = true ↔ slug ∈ slugPattern.language :=
  Schema.shaped_iff fun char alnum => by
    rw [beq_eq_false_iff_ne]
    rintro rfl
    exact absurd alnum (by decide)

theorem hostnameShaped_iff {hostname : Str} :
    shaped (fun char => char == '.' || char == '-') true hostname = true ↔
      hostname ∈ hostnamePattern.language :=
  Schema.shaped_iff fun char alnum => by
    rw [Bool.or_eq_false_iff, beq_eq_false_iff_ne, beq_eq_false_iff_ne]
    constructor
    · rintro rfl
      exact absurd alnum (by decide)
    · rintro rfl
      exact absurd alnum (by decide)

instance (app : Application) : Decidable (ApplicationChecks space app) :=
  decidable_of_iff (shaped (· == '-') true app.slug = true ∧
      shaped (fun char => char == '.' || char == '-') true app.externalHostname = true ∧
      app.name ≠ [] ∧ upstreamShaped space app.upstreamUrl = true)
    ⟨fun ⟨slug, hostname, name, upstream⟩ => ⟨slugShaped_iff.mp slug,
      hostnameShaped_iff.mp hostname,
        name, upstreamShaped_iff.mp upstream⟩,
      fun checks => ⟨slugShaped_iff.mpr checks.slug, hostnameShaped_iff.mpr checks.externalHostname,
        checks.name, upstreamShaped_iff.mpr checks.upstreamUrl⟩⟩

end Checks

instance (row : Entitlement) : Decidable (EntitlementChecks row) :=
  decidable_of_iff ((row.subjectType = "ad_group".toList ∨ row.subjectType = "user".toList) ∧
      row.subjectId ≠ [] ∧ (row.effect = "allow".toList ∨ row.effect = "deny".toList) ∧
      (row.pathPattern = [] ∨ ['/'] <+: row.pathPattern))
    ⟨fun ⟨kind, subject, effect, pattern⟩ => ⟨kind, subject, effect, pattern⟩,
      fun checks => ⟨checks.subjectType, checks.subjectId, checks.effect, checks.pathPattern⟩⟩

/-! ### The tables -/

/-- A row of `entitlement` out of its values. -/
def entitlementRow (id : Uuid) (row : Entitlement) (checks : EntitlementChecks row) :
    EntitlementRow where
  id := id
  applicationId := row.applicationId
  subjectType := row.subjectType
  subjectId := row.subjectId
  effect := row.effect
  pathPattern := row.pathPattern
  expiresAt := row.expiresAt
  subjectTypeCheck := checks.subjectType
  subjectIdCheck := checks.subjectId
  effectCheck := checks.effect
  pathPatternCheck := checks.pathPattern

/-- `unique nulls not distinct`. -/
def uniqueColumns (row : EntitlementRow) : Option Uuid × Str × Str × Str × Str :=
  (row.applicationId, row.subjectType, row.subjectId, row.effect, row.pathPattern)

/-- `application` and `entitlement` with the constraints of the schema. -/
@[ext]
structure Tables (space : Char → Bool) where
  applications : List Application
  entitlements : List EntitlementRow
  applicationChecks : ∀ app ∈ applications, ApplicationChecks space app
  applicationKey : (applications.map (·.id)).Nodup
  slugUnique : (applications.map (·.slug)).Nodup
  hostnameUnique : (applications.map (·.externalHostname)).Nodup
  entitlementKey : (entitlements.map (·.id)).Nodup
  entitlementUnique : (entitlements.map uniqueColumns).Nodup
  references : ∀ row ∈ entitlements, ∀ id ∈ row.applicationId, id ∈ applications.map (·.id)

/-- The constraint that a statement breaks. -/
inductive Violation
  | check
  | unique
  | foreignKey
  deriving DecidableEq

/-- The columns that a patch sets, with the values that are bound. -/
def applyPatch (columns : ApplicationPatch) (app : Application) : Application :=
  { app with
    name := columns.name.getD app.name
    icon := columns.icon.getD app.icon
    upstreamUrl := columns.upstreamUrl.getD app.upstreamUrl
    enabled := columns.enabled.getD app.enabled }

namespace Tables

variable {space : Char → Bool}

/-- Tables without a row. -/
def empty : Tables space where
  applications := []
  entitlements := []
  applicationChecks := fun _ member => nomatch member
  applicationKey := .nil
  slugUnique := .nil
  hostnameUnique := .nil
  entitlementKey := .nil
  entitlementUnique := .nil
  references := fun _ member => nomatch member

/-- A row has the value in the column. -/
def has {ρ β : Type} [DecidableEq β] (column : ρ → β) (value : β) (rows : List ρ) : Bool :=
  rows.any fun row => column row = value

theorem has_iff {ρ β : Type} [DecidableEq β] {column : ρ → β} {value : β} {rows : List ρ} :
    has column value rows = true ↔ value ∈ rows.map column := by
  unfold has
  simp only [List.any_eq_true, decide_eq_true_eq, List.mem_map]

variable (tables : Tables space)

/-! ### The statements -/

/-- `insert into application`. -/
def insertApplication (app : Application) : Except Violation (Tables space) :=
  if checks : ApplicationChecks space app then
    if free : ¬ has (·.id) app.id tables.applications ∧
      ¬ has (·.slug) app.slug tables.applications ∧
        ¬ has (·.externalHostname) app.externalHostname tables.applications then
      .ok { tables with
        applications := app :: tables.applications
        applicationChecks := List.forall_mem_cons.mpr ⟨checks, tables.applicationChecks⟩
        applicationKey := List.nodup_cons.mpr ⟨mt has_iff.mpr free.1, tables.applicationKey⟩
        slugUnique := List.nodup_cons.mpr ⟨mt has_iff.mpr free.2.1, tables.slugUnique⟩
        hostnameUnique := List.nodup_cons.mpr ⟨mt has_iff.mpr free.2.2, tables.hostnameUnique⟩
        references := fun row member id named =>
          List.mem_cons_of_mem _ (tables.references row member id named) }
    else .error .unique
  else .error .check

/-- One row for another of the same id. -/
def replaced (next : Application) : List Application :=
  tables.applications.map fun row => if row.id = next.id then next else row

variable {tables}

/-- A column that the new row has in common with the old one. -/
theorem map_replaced {β : Type} {column : Application → β} {app next : Application}
    (member : app ∈ tables.applications) (same : next.id = app.id)
    (kept : column next = column app) :
    (tables.replaced next).map column = tables.applications.map column := by
  unfold replaced
  rw [List.map_map]
  refine List.map_congr_left fun row listed => ?_
  show column (if row.id = next.id then next else row) = column row
  by_cases this : row.id = next.id
  · rw [if_pos this, kept,
      List.inj_on_of_nodup_map tables.applicationKey listed member (this.trans same)]
  · rw [if_neg this]

theorem mem_replaced {next row : Application} (listed : row ∈ tables.replaced next) :
    row = next ∨ row ∈ tables.applications ∧ row.id ≠ next.id := by
  obtain ⟨old, member, rfl⟩ := List.mem_map.mp listed
  by_cases this : old.id = next.id
  · rw [if_pos this]
    exact Or.inl rfl
  · rw [if_neg this]
    exact Or.inr ⟨member, this⟩

variable (tables)

/-- A stored row with other columns that are no keys. -/
def replace {app next : Application} (member : app ∈ tables.applications)
    (checks : ApplicationChecks space next)
    (kept : next.id = app.id ∧ next.slug = app.slug ∧
      next.externalHostname = app.externalHostname) :
    Tables space :=
  { tables with
    applications := tables.replaced next
    applicationChecks := fun _ listed => (mem_replaced listed).elim (fun same => same ▸ checks)
      fun old => tables.applicationChecks _ old.1
    applicationKey := by
      rw [map_replaced member kept.1 kept.1]
      exact tables.applicationKey
    slugUnique := by
      rw [map_replaced member kept.1 kept.2.1]
      exact tables.slugUnique
    hostnameUnique := by
      rw [map_replaced member kept.1 kept.2.2]
      exact tables.hostnameUnique
    references := by
      rw [map_replaced member kept.1 kept.1]
      exact tables.references }

/-- `update application … where id = $1`; nothing where there is no such row. -/
def updateApplication (id : Uuid) (columns : ApplicationPatch) :
    Except Violation (Option (Application × Tables space)) :=
  match found : tables.applications.find? (·.id == id) with
  | none => .ok none
  | some app =>
    if checks : ApplicationChecks space (applyPatch columns app) then
      .ok (some (applyPatch columns app,
        tables.replace (List.mem_of_find?_eq_some found) checks ⟨rfl, rfl, rfl⟩))
    else .error .check

/-- `delete from application where id = $1`, its entitlements with it. -/
def deleteApplication (id : Uuid) : Tables space where
  applications := tables.applications.filter (·.id != id)
  entitlements := tables.entitlements.filter (·.applicationId != some id)
  applicationChecks :=
    fun app member => tables.applicationChecks app (List.mem_of_mem_filter member)
  applicationKey := tables.applicationKey.sublist (List.filter_sublist.map _)
  slugUnique := tables.slugUnique.sublist (List.filter_sublist.map _)
  hostnameUnique := tables.hostnameUnique.sublist (List.filter_sublist.map _)
  entitlementKey := tables.entitlementKey.sublist (List.filter_sublist.map _)
  entitlementUnique := tables.entitlementUnique.sublist (List.filter_sublist.map _)
  references := by
    intro row member other named
    obtain ⟨listed, stays⟩ := List.mem_filter.mp member
    obtain ⟨app, stored, rfl⟩ := List.mem_map.mp (tables.references row listed other named)
    refine List.mem_map_of_mem (List.mem_filter.mpr ⟨stored, bne_iff_ne.mpr ?_⟩)
    rintro rfl
    exact bne_iff_ne.mp stays (Option.mem_def.mp named)

/-- `insert into entitlement`. -/
def insertEntitlement (id : Uuid) (row : Entitlement) :
    Except Violation (EntitlementRow × Tables space) :=
  if checks : EntitlementChecks row then
    if free : ¬ has (·.id) id tables.entitlements ∧
        ¬ has uniqueColumns (uniqueColumns (entitlementRow id row checks)) tables.entitlements then
      if known : row.applicationId.all fun app => has (·.id) app tables.applications then
        .ok (entitlementRow id row checks, { tables with
          entitlements := entitlementRow id row checks :: tables.entitlements
          entitlementKey := List.nodup_cons.mpr ⟨mt has_iff.mpr free.1, tables.entitlementKey⟩
          entitlementUnique := List.nodup_cons.mpr ⟨mt has_iff.mpr free.2, tables.entitlementUnique⟩
          references := List.forall_mem_cons.mpr ⟨fun app named =>
            has_iff.mp ((Option.all_eq_true _ _).mp known app named), tables.references⟩ })
      else .error .foreignKey
    else .error .unique
  else .error .check

/-- `delete from entitlement where id = $1`. -/
def deleteEntitlement (id : Uuid) : Tables space :=
  { tables with
    entitlements := tables.entitlements.filter (·.id != id)
    entitlementKey := tables.entitlementKey.sublist (List.filter_sublist.map _)
    entitlementUnique := tables.entitlementUnique.sublist (List.filter_sublist.map _)
    references := fun row member => tables.references row (List.mem_of_mem_filter member) }

/-! ### What a statement leaves -/

variable {tables} {next : Tables space} {app : Application} {id : Uuid}

theorem insertApplication_eq_ok (inserted : tables.insertApplication app = .ok next) :
    next.applications = app :: tables.applications ∧ next.entitlements = tables.entitlements ∧
      app.id ∉ tables.applications.map (·.id) ∧ app.slug ∉ tables.applications.map (·.slug) := by
  unfold insertApplication at inserted
  split_ifs at inserted with checks free
  obtain rfl := Except.ok.inj inserted
  exact ⟨rfl, rfl, mt has_iff.mpr free.1, mt has_iff.mpr free.2.1⟩

theorem updateApplication_eq_ok {columns : ApplicationPatch}
    (updated : tables.updateApplication id columns = .ok (some (app, next))) :
    ∃ old ∈ tables.applications, old.id = id ∧ app = applyPatch columns old ∧
      next.applications = tables.replaced app ∧ next.entitlements = tables.entitlements := by
  unfold updateApplication at updated
  split at updated
  · cases updated
  · rename_i old found
    split_ifs at updated with checks
    cases updated
    have passes := List.find?_some found
    exact ⟨old, List.mem_of_find?_eq_some found, beq_iff_eq.mp passes, rfl, rfl, rfl⟩

theorem insertEntitlement_eq_ok {row : Entitlement} {new : EntitlementRow}
    (inserted : tables.insertEntitlement id row = .ok (new, next)) :
    (∃ checks, new = entitlementRow id row checks) ∧ next.applications = tables.applications ∧
      next.entitlements = new :: tables.entitlements := by
  unfold insertEntitlement at inserted
  split_ifs at inserted with checks free known
  cases inserted
  exact ⟨⟨checks, rfl⟩, rfl, rfl⟩

theorem mem_deleteApplication :
    app ∈ (tables.deleteApplication id).applications ↔ app ∈ tables.applications ∧ app.id ≠ id := by
  unfold deleteApplication
  rw [List.mem_filter, bne_iff_ne]

theorem entitlement_deleteApplication {row : EntitlementRow} :
    row ∈ (tables.deleteApplication id).entitlements ↔
      row ∈ tables.entitlements ∧ row.applicationId ≠ some id := by
  unfold deleteApplication
  rw [List.mem_filter, bne_iff_ne]

theorem mem_deleteEntitlement {row : EntitlementRow} :
    row ∈ (tables.deleteEntitlement id).entitlements ↔ row ∈ tables.entitlements ∧ row.id ≠ id := by
  unfold deleteEntitlement
  rw [List.mem_filter, bne_iff_ne]

/-! ### The tables as a decision reads them -/

/-- The columns that the queries of a decision select. -/
def applicationRow (app : Application) (checks : ApplicationChecks space app) : ApplicationRow where
  id := app.id
  slug := app.slug
  externalHostname := app.externalHostname
  name := app.name
  icon := app.icon
  enabled := app.enabled
  slugCheck := slugShaped_iff.mpr checks.slug
  hostnameCheck := hostnameShaped_iff.mpr checks.externalHostname
  nameCheck := checks.name

theorem map_rows {β : Type} {column : ApplicationRow → β} {value : Application → β}
    (same : ∀ app checks, column (@applicationRow space app checks) = value app)
    {rows : List Application} (checks : ∀ app ∈ rows, ApplicationChecks space app) :
    (rows.pmap applicationRow checks).map column = rows.map value := by
  rw [List.map_pmap]
  exact (List.pmap_congr_left rows fun app _ checked _ => same app checked).trans
    (List.pmap_eq_map checks)

variable (tables) in
/-- The rows as the statements of `store.rs` see them. -/
def db : Db where
  applications := tables.applications.pmap applicationRow tables.applicationChecks
  entitlements := tables.entitlements
  slugUnique := by
    rw [@map_rows _ _ (·.slug) (·.slug) fun _ _ => rfl]
    exact tables.slugUnique
  hostnameUnique := by
    rw [@map_rows _ _ (·.externalHostname) (·.externalHostname) fun _ _ => rfl]
    exact tables.hostnameUnique

theorem mem_db {row : ApplicationRow} :
    row ∈ tables.db.applications ↔
      ∃ app, ∃ member : app ∈ tables.applications,
        applicationRow app (tables.applicationChecks app member) = row :=
  List.mem_pmap

/-! ### The decision on the tables -/

/-- The rules of an application for a user. -/
def rules (tables : Tables space) (id : Uuid) (sub : Str) (groups : List Str) : List Rule :=
  (tables.entitlements.filter (Store.applicable id sub groups)).map Store.ruleOfRow

variable {http : HeaderText} {plan : Lib.Plan EntitlementRow} {identity : Identity} {uri : Str}
  {now : DateTime}

/-- **A stored application** is decided by its own flag and its own rules. -/
theorem decision_stored (member : app ∈ tables.applications) :
    missDecision http tables.db plan app.slug identity uri now =
      Policy.decide app.enabled
        (tables.rules app.id (http.text identity.sub) (groupsOf http identity))
        uri now := by
  have stored := mem_db.mpr ⟨app, member, rfl⟩
  exact missDecision_eq http stored identity uri now

/-- **A slug that no row has** is decided as a disabled application. -/
theorem decision_absent {slug : Str} (absent : slug ∉ tables.applications.map (·.slug)) :
    missDecision http tables.db plan slug identity uri now = Policy.decide false [] uri now := by
  have none : Store.findSlug tables.db slug = none := by
    rw [Option.eq_none_iff_forall_ne_some]
    intro row found
    obtain ⟨stored, same⟩ := Store.findSlug_eq_some.mp found
    obtain ⟨app, member, rfl⟩ := mem_db.mp stored
    exact absent (same ▸ List.mem_map_of_mem member)
  unfold missDecision load Query.answered Store.rulesFor
  rw [none]
  rfl

end Tables

end OpenBerat.Manage
