/-
**The decision on a cache miss.**

`load` turns a verified identity into the rules a decision is taken from: the group header is read,
split and handed to the entitlement query. `missDecision` is the decision on what `load` returns.

* `groups_complete_iff`: legal group names all reach the query, and with them every deny rule on one
  of them, if and only if all of them are ASCII. One other character empties the whole list.
-/

import OpenBerat.Http
import OpenBerat.Policy.Readings
import OpenBerat.Store

namespace OpenBerat

open Lib (Plan)

/-- What a cache entry is filled with. -/
structure Cached where
  identity : Identity
  rules : List Rule
  enabled : Bool
  applicationId : Option Uuid
  deriving DecidableEq

/-- The entitlement query: nothing where it failed or ran over its time. -/
abbrev Query := Str → Str → List Str → Option (Option Store.AppRules)

/-- The query answered from the tables. -/
def Query.answered (db : Db) (plan : Plan EntitlementRow) : Query := fun slug sub groups =>
  some (Store.rulesFor db plan slug sub groups)

variable (http : HeaderText)

/-- The group names `load` hands to the query. -/
def groupsOf (identity : Identity) : List Str :=
  groupNames (http.text identity.groups)

/-- The entry of a found application, or of a slug with no row. -/
def cachedOf (identity : Identity) : Option Store.AppRules → Cached
  | some app =>
    { identity := identity
      rules := app.rules
      enabled := app.enabled
      applicationId := some app.id }
  | none =>
    { identity := identity
      rules := []
      enabled := false
      applicationId := none }

/-- `load`: the query for an identity, and the data that is kept of its answer. -/
def load (query : Query) (slug : Str) (identity : Identity) : Except Deny Cached :=
  match query slug (http.text identity.sub) (groupsOf http identity) with
  | none => .error .storeUnavailable
  | some found => .ok (cachedOf identity found)

/-- The decision `answer` takes, on a hit as on a miss. -/
def Cached.decision (cached : Cached) (uri : Str) (now : DateTime) : Decision :=
  Policy.decide cached.enabled cached.rules uri now

/-- The decision on a miss for a verified identity, with the query answered from the tables. -/
def missDecision (db : Db) (plan : Plan EntitlementRow) (slug : Str) (identity : Identity)
    (uri : Str) (now : DateTime) : Decision :=
  match load http (Query.answered db plan) slug identity with
  | .error reason => .deny reason
  | .ok cached => cached.decision uri now

/-- On a stored application the decision is taken from its applicable rows. -/
theorem missDecision_eq {db : Db} {plan : Plan EntitlementRow} {app : ApplicationRow}
    (member : app ∈ db.applications) (identity : Identity) (uri : Str) (now : DateTime) :
    missDecision http db plan app.slug identity uri now =
      Policy.decide app.enabled ((db.entitlements.filter
        (Store.applicable app.id (http.text identity.sub) (groupsOf http identity))).map
          Store.ruleOfRow) uri now := by
  obtain ⟨rules, found, perm⟩ := @Store.rulesFor_eq_some db plan app.slug
    (http.text identity.sub) (groupsOf http identity) app member rfl
  unfold missDecision load Query.answered
  rw [found]
  exact Policy.decide_congr (fun rule => perm.mem_iff) app.enabled uri now

/-! ### What the group header loses -/

/-- A name a directory group may have: no comma, no control character, no space around it. -/
structure LegalName (name : Str) : Prop where
  nonempty : name ≠ []
  noComma : ',' ∉ name
  noControl : name.any isControl = false
  trimmed : trim name = name

instance (name : Str) : Decidable (LegalName name) :=
  decidable_of_iff
    (name ≠ [] ∧ ',' ∉ name ∧ name.any isControl = false ∧ trim name = name)
    ⟨fun ⟨nonempty, noComma, noControl, trimmed⟩ => ⟨nonempty, noComma, noControl, trimmed⟩,
      fun legal => ⟨legal.nonempty, legal.noComma, legal.noControl, legal.trimmed⟩⟩

theorem visibleChar_of_legal {name : Str} (legal : LegalName name) {char : Char}
    (member : char ∈ name) : visibleChar char = true ↔ char.toNat < 128 := by
  have control : isControl char = false := by
    simpa using List.any_eq_false.mp legal.noControl char member
  unfold isControl at control
  rw [Bool.or_eq_false_iff, Bool.and_eq_false_iff, decide_eq_false_iff_not, decide_eq_false_iff_not,
    decide_eq_false_iff_not] at control
  unfold visibleChar
  rw [decide_eq_true_iff]
  constructor
  · rintro (rfl | ⟨_, below⟩)
    · decide
    · omega
  · intro ascii
    exact Or.inr ⟨by omega, by omega⟩

/-- **ASCII names arrive**, each once and in order. -/
theorem groupsOf_of_ascii {identity : Identity} {names : List Str}
    (legal : ∀ name ∈ names, LegalName name) (sent : identity.groups = asBytes (join ',' names))
    (ascii : ∀ name ∈ names, ∀ char ∈ name, char.toNat < 128) :
    groupsOf http identity = names := by
  have readable : Readable (join ',' names) := by
    intro char member
    rcases mem_join member with rfl | ⟨name, inside, found⟩
    · decide
    · exact (visibleChar_of_legal (legal name inside) found).mpr (ascii name inside char found)
  unfold groupsOf
  rw [sent, http.text_asBytes, if_pos readable]
  exact groupNames_join fun name member =>
    ⟨(legal name member).nonempty, (legal name member).noComma⟩

/-- **One other character empties the list.** -/
theorem groupsOf_of_not_ascii {identity : Identity} {names : List Str}
    (legal : ∀ name ∈ names, LegalName name) (sent : identity.groups = asBytes (join ',' names))
    {name : Str} (inside : name ∈ names) {char : Char} (member : char ∈ name)
    (wide : ¬ char.toNat < 128) : groupsOf http identity = [] := by
  have hidden : ¬ Readable (join ',' names) := by
    intro all
    have other : char ≠ ',' := fun same => (legal name inside).noComma (same ▸ member)
    exact wide ((visibleChar_of_legal (legal name inside) member).mp
      (all char (mem_join_of_mem inside member other)))
  unfold groupsOf
  rw [sent, http.text_asBytes, if_neg hidden]
  rfl

/-- The identities `load` sees when these names are sent. -/
def Sends (names : List Str) (identity : Identity) : Prop :=
  identity.groups = asBytes (join ',' names)

/-- **Every group reaches the query, and every deny on a group denies, exactly when all names are
ASCII.** -/
theorem groups_complete_iff (names : List Str) (legal : ∀ name ∈ names, LegalName name) :
    ((∀ identity, Sends names identity → groupsOf http identity = names) ∧
      ∀ identity, Sends names identity → ∀ (db : Db) (plan : Plan EntitlementRow),
        ∀ app ∈ db.applications, app.enabled = true → ∀ row ∈ db.entitlements,
          row.subjectType = "ad_group".toList → row.subjectId ∈ names →
          row.effect = "deny".toList →
          (row.applicationId = some app.id ∨ row.applicationId = none) →
          ∀ (uri path : Str) (now : DateTime), Policy.live now (Store.ruleOfRow row) = true →
            Policy.normalise uri = .ok path →
            Policy.matchesPattern row.pathPattern path = true →
            missDecision http db plan app.slug identity uri now = .deny .explicitDeny) ↔
      ∀ name ∈ names, ∀ char ∈ name, char.toNat < 128 := by
  constructor
  · rintro ⟨complete, _⟩ name inside char member
    by_contra wide
    have sent : Sends names ⟨[], [], [], asBytes (join ',' names)⟩ := rfl
    have lost := groupsOf_of_not_ascii http legal sent inside member wide
    rw [complete _ sent] at lost
    rw [lost] at inside
    cases inside
  · intro ascii
    refine ⟨fun identity sent => groupsOf_of_ascii http legal sent ascii, ?_⟩
    intro identity sent db plan app member enabled row rowMem subject named denies applies uri path
      now current normal matched
    rw [missDecision_eq http member, enabled]
    have reached : Store.applicable app.id (http.text identity.sub) (groupsOf http identity) row =
        true := by
      unfold Store.applicable Store.namesSubject
      rw [groupsOf_of_ascii http legal sent ascii]
      simp only [subject, named, applies, true_and, true_or, decide_true]
    refine Policy.decide_eq_explicitDeny normal
      (List.mem_map_of_mem (List.mem_filter.mpr ⟨rowMem, reached⟩)) ?_ current matched
    unfold Store.ruleOfRow Store.effectOf
    exact if_pos denies

/-! ### One application, one deny on a group, one allow on a user -/

namespace Miss

/-- An application. -/
def wiki : ApplicationRow where
  id := 1
  slug := "wiki".toList
  externalHostname := "wiki.apps".toList
  name := "Wiki".toList
  icon := none
  enabled := true
  slugCheck := by decide
  hostnameCheck := by decide
  nameCheck := by decide

/-- A deny on it for a group. -/
def denyStaff : EntitlementRow where
  id := 2
  applicationId := some 1
  subjectType := "ad_group".toList
  subjectId := "staff".toList
  effect := "deny".toList
  pathPattern := []
  expiresAt := none
  subjectTypeCheck := by decide
  subjectIdCheck := by decide
  effectCheck := by decide
  pathPatternCheck := by decide

/-- An allow on it for a user. -/
def allowUser : EntitlementRow where
  id := 3
  applicationId := some 1
  subjectType := "user".toList
  subjectId := "u1".toList
  effect := "allow".toList
  pathPattern := []
  expiresAt := none
  subjectTypeCheck := by decide
  subjectIdCheck := by decide
  effectCheck := by decide
  pathPatternCheck := by decide

/-- The tables of these three rows. -/
def tables : Db where
  applications := [wiki]
  entitlements := [denyStaff, allowUser]
  slugUnique := by decide
  hostnameUnique := by decide

/-- The user `u1` in the given groups. -/
def member (groups : Str) : Identity :=
  ⟨asBytes "u1".toList, [], [], asBytes groups⟩

end Miss

open Miss in
/-- With ASCII names the deny on `staff` is met, behind another name of the list. -/
theorem groups_complete_staff :
    groupsOf HeaderText.documented (member "users,staff".toList) =
        ["users".toList, "staff".toList] ∧
      missDecision HeaderText.documented tables (Plan.table _) "wiki".toList
        (member "users,staff".toList) ['/'] 0 = .deny .explicitDeny := by
  obtain ⟨complete, denied⟩ := (groups_complete_iff HeaderText.documented
    ["users".toList, "staff".toList] (by decide +kernel)).mpr (by simp)
  refine ⟨complete (member "users,staff".toList) rfl, ?_⟩
  exact denied (member "users,staff".toList) rfl tables (Plan.table _) wiki
    (by decide) rfl denyStaff
    (by decide) rfl (by decide) rfl (Or.inl rfl) ['/'] ['/'] 0 rfl rfl (by decide +kernel)

open Miss in
/-- One Turkish name in the list, and the deny on `staff` is walked past. -/
theorem groups_lost :
    (∀ name ∈ ["staff".toList, "yönetim".toList], LegalName name) ∧
    Sends ["staff".toList, "yönetim".toList] (member "staff,yönetim".toList) ∧
    groupsOf HeaderText.documented (member "staff,yönetim".toList) = [] ∧
    Policy.live 0 (Store.ruleOfRow denyStaff) = true ∧
    Policy.matchesPattern denyStaff.pathPattern ['/'] = true ∧
    missDecision HeaderText.documented tables (Plan.table _) "wiki".toList
      (member "staff,yönetim".toList) ['/'] 0 = .allow := by
  exact ⟨by decide +kernel, rfl, by decide +kernel, by decide +kernel, by decide +kernel,
    by decide +kernel⟩

end OpenBerat
