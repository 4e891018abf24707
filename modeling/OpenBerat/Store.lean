/-
**The application and entitlement tables, and the three queries over them.**

A row carries the column constraints of the schema as fields, so a row the schema refuses cannot be
built; `Db` carries the uniqueness of slugs and hostnames. A query without `order by` returns its
rows in an order of the server's choosing (`Lib.Plan`), and text is ordered by a collation
(`Collation`).

* `rulesFor_rules_perm`, `tracedRulesFor_perm`: both queries hand over the applicable rows, each
  once, whatever the plan.
-/

import Mathlib.Data.List.Lex
import Mathlib.Data.List.Perm.Basic
import Mathlib.Data.Char
import OpenBerat.Lib.Grouping
import OpenBerat.Policy.Decide

namespace OpenBerat

open Lib (Plan)

/-- `Uuid`, 128 bits. -/
abbrev Uuid := BitVec 128

/-! ### What the server decides -/

/-- The order of a text column. Postgres breaks ties of the locale bytewise, so only equal texts
are tied. -/
structure Collation where
  le : Str → Str → Bool
  total : ∀ first second, le first second || le second first
  trans : ∀ first second third, le first second = true → le second third = true →
    le first third = true
  antisymm : ∀ first second, le first second = true → le second first = true → first = second

/-- The collation that compares code points. -/
def Collation.codePoint : Collation where
  le first second := decide (first ≤ second)
  total first second := by
    rw [Bool.or_eq_true, decide_eq_true_iff, decide_eq_true_iff]
    exact le_total first second
  trans first second third below above :=
    decide_eq_true ((of_decide_eq_true below).trans (of_decide_eq_true above))
  antisymm first second below above :=
    le_antisymm (of_decide_eq_true below) (of_decide_eq_true above)

/-! ### Rows -/

/-- `[a-z0-9]`. -/
def lowerAlnum (char : Char) : Bool :=
  char.isLower || char.isDigit

/-- `^[a-z0-9]+(S[a-z0-9]+)*$` for a separator class `S`; `fresh` while a run must still begin. -/
def shaped (separator : Char → Bool) (fresh : Bool) : Str → Bool
  | [] => !fresh
  | char :: rest =>
    lowerAlnum char && shaped separator false rest ||
      !fresh && separator char && shaped separator true rest

/-- A row of `application`. -/
structure ApplicationRow where
  id : Uuid
  slug : Str
  externalHostname : Str
  name : Str
  icon : Option Str
  enabled : Bool
  slugCheck : shaped (· == '-') true slug = true
  hostnameCheck : shaped (fun char => char == '.' || char == '-') true externalHostname = true
  nameCheck : name ≠ []
  deriving DecidableEq

/-- A row of `entitlement`. No application is every application. -/
structure EntitlementRow where
  id : Uuid
  applicationId : Option Uuid
  subjectType : Str
  subjectId : Str
  effect : Str
  pathPattern : Str
  expiresAt : Option DateTime
  subjectTypeCheck : subjectType = "ad_group".toList ∨ subjectType = "user".toList
  subjectIdCheck : subjectId ≠ []
  effectCheck : effect = "allow".toList ∨ effect = "deny".toList
  pathPatternCheck : pathPattern = [] ∨ ['/'] <+: pathPattern
  deriving DecidableEq

/-- The two tables, as far as the statements read them. -/
structure Db where
  applications : List ApplicationRow
  entitlements : List EntitlementRow
  slugUnique : (applications.map (·.slug)).Nodup
  hostnameUnique : (applications.map (·.externalHostname)).Nodup

namespace Store

/-! ### One user on one application -/

/-- `effect_of`. -/
def effectOf (effect : Str) : Effect :=
  if effect = "deny".toList then .deny else .allow

/-- The subject half of the source's `applicable!`. -/
def namesSubject (sub : Str) (groups : List Str) (row : EntitlementRow) : Bool :=
  (row.subjectType = "ad_group".toList ∧ row.subjectId ∈ groups) ∨
    (row.subjectType = "user".toList ∧ row.subjectId = sub)

/-- The source's `applicable!`. -/
def applicable (applicationId : Uuid) (sub : Str) (groups : List Str) (row : EntitlementRow) :
    Bool :=
  (row.applicationId = some applicationId ∨ row.applicationId = none) ∧
    namesSubject sub groups row = true

/-- The rule of a row. -/
def ruleOfRow (row : EntitlementRow) : Rule :=
  { effect := effectOf row.effect
    pathPattern := row.pathPattern
    expiresAt := row.expiresAt }

/-- `AppRules`: an application, and the rules that apply to a user there. -/
structure AppRules where
  id : Uuid
  enabled : Bool
  rules : List Rule
  deriving DecidableEq

variable (db : Db)

/-- The application of a slug. -/
def findSlug (slug : Str) : Option ApplicationRow :=
  db.applications.find? fun row => row.slug == slug

/-- `rules_for`. -/
def rulesFor (plan : Plan EntitlementRow) (slug sub : Str) (groups : List Str) : Option AppRules :=
  (findSlug db slug).map fun app =>
    { id := app.id
      enabled := app.enabled
      rules := (plan.arrange (db.entitlements.filter (applicable app.id sub groups))).map
        ruleOfRow }

/-- `TracedRule`: a rule with the columns that the screen shows. -/
structure TracedRule where
  id : Uuid
  applicationId : Option Uuid
  subjectType : Str
  subjectId : Str
  rule : Rule
  deriving DecidableEq

/-- `order by effect, subject_id`. -/
def tracedLe (collation : Collation) (first second : EntitlementRow) : Bool :=
  if first.effect = second.effect then collation.le first.subjectId second.subjectId
  else collation.le first.effect second.effect

/-- `traced_rules_for`, in the order of its statement. -/
def tracedRulesFor (collation : Collation) (plan : Plan EntitlementRow) (applicationId : Uuid)
    (sub : Str) (groups : List Str) : List TracedRule :=
  ((plan.arrange (db.entitlements.filter (applicable applicationId sub groups))).mergeSort
    (tracedLe collation)).map fun row =>
      { id := row.id
        applicationId := row.applicationId
        subjectType := row.subjectType
        subjectId := row.subjectId
        rule := ruleOfRow row }

variable {db}

theorem findSlug_eq_some {slug : Str} {app : ApplicationRow} :
    findSlug db slug = some app ↔ app ∈ db.applications ∧ app.slug = slug := by
  unfold findSlug
  constructor
  · intro found
    have passes := List.find?_some found
    exact ⟨List.mem_of_find?_eq_some found, beq_iff_eq.mp passes⟩
  · rintro ⟨member, rfl⟩
    cases found : db.applications.find? fun row => row.slug == app.slug with
    | none => exact absurd (List.find?_eq_none.mp found app member) (by simp)
    | some other =>
      have passes := List.find?_some found
      have same := List.inj_on_of_nodup_map db.slugUnique (List.mem_of_find?_eq_some found) member
        (beq_iff_eq.mp passes)
      rw [same]

/-- The rules of a stored application are its applicable rows, each once. -/
theorem rulesFor_eq_some {plan : Plan EntitlementRow} {slug sub : Str} {groups : List Str}
    {app : ApplicationRow} (member : app ∈ db.applications) (same : app.slug = slug) :
    ∃ rules, rulesFor db plan slug sub groups = some ⟨app.id, app.enabled, rules⟩ ∧
      rules.Perm ((db.entitlements.filter (applicable app.id sub groups)).map ruleOfRow) := by
  refine ⟨_, ?_, (plan.perm _).map ruleOfRow⟩
  unfold rulesFor
  rw [findSlug_eq_some.mpr ⟨member, same⟩]
  rfl

theorem tracedRulesFor_perm (collation : Collation) (plan : Plan EntitlementRow)
    (applicationId : Uuid) (sub : Str) (groups : List Str) :
    ((tracedRulesFor db collation plan applicationId sub groups).map (·.rule)).Perm
      ((db.entitlements.filter (applicable applicationId sub groups)).map ruleOfRow) := by
  unfold tracedRulesFor
  rw [List.map_map]
  exact ((List.mergeSort_perm _ _).trans (plan.perm _)).map _

/-! ### Every application -/

/-- The columns of the portal's join. -/
structure PortalRow where
  slug : Str
  name : Str
  icon : Option Str
  externalHostname : Str
  effect : Option Str
  pathPattern : Option Str
  expiresAt : Option DateTime
  deriving DecidableEq

/-- `PortalApp`: an enabled application, and the rules that apply to a user there. -/
structure PortalApp where
  slug : Str
  name : Str
  icon : Option Str
  externalHostname : Str
  rules : List Rule
  deriving DecidableEq

/-- The selected columns of one joined row. -/
def portalRow (row : ApplicationRow × Option EntitlementRow) : PortalRow :=
  { slug := row.1.slug
    name := row.1.name
    icon := row.1.icon
    externalHostname := row.1.externalHostname
    effect := row.2.map (·.effect)
    pathPattern := row.2.map (·.pathPattern)
    expiresAt := row.2.bind (·.expiresAt) }

/-- The condition of the portal's join. -/
def joins (sub : Str) (groups : List Str) (app : ApplicationRow) (row : EntitlementRow) : Bool :=
  (row.applicationId = some app.id ∨ row.applicationId = none) ∧ namesSubject sub groups row = true

/-- `order by a.name, a.slug`. -/
def portalLe (collation : Collation) (first second : PortalRow) : Bool :=
  if first.name = second.name then collation.le first.slug second.slug
  else collation.le first.name second.name

variable (db)

/-- The rows of the join. -/
def joinedRows (sub : Str) (groups : List Str) : List PortalRow :=
  (Lib.leftJoin (joins sub groups) (db.applications.filter (·.enabled)) db.entitlements).map
    portalRow

/-- The rows of the join, in the order of the statement. -/
def portalRows (collation : Collation) (plan : Plan PortalRow) (sub : Str) (groups : List Str) :
    List PortalRow :=
  (plan.arrange (joinedRows db sub groups)).mergeSort (portalLe collation)

/-- The rule of a joined row, if it has one. -/
def portalRule (row : PortalRow) : Option Rule :=
  match row.effect, row.pathPattern with
  | some effect, some pathPattern =>
    some { effect := if effect = "deny".toList then .deny else .allow
           pathPattern := pathPattern
           expiresAt := row.expiresAt }
  | _, _ => none

/-- `apps.push` of an application without rules. -/
def openApp (row : PortalRow) : PortalApp :=
  { slug := row.slug
    name := row.name
    icon := row.icon
    externalHostname := row.externalHostname
    rules := [] }

/-- A further rule of the last application. -/
def pushRule (app : PortalApp) (row : PortalRow) : PortalApp :=
  { app with rules := app.rules ++ (portalRule row).toList }

/-- One row of the loop of `portal_apps`: a new slug opens an application, and the rule goes to the
last one. -/
def pushPortalRow (apps : List PortalApp) (row : PortalRow) : List PortalApp :=
  let apps := if apps.getLast?.all (·.slug != row.slug) then apps ++ [openApp row] else apps
  match apps.getLast? with
  | none => apps
  | some app => apps.dropLast ++ [pushRule app row]

/-- `portal_apps`: the rows, one application at a time. -/
def portalApps (collation : Collation) (plan : Plan PortalRow) (sub : Str) (groups : List Str) :
    List PortalApp :=
  (portalRows db collation plan sub groups).foldl pushPortalRow []

end Store

end OpenBerat
