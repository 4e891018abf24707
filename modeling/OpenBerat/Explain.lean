/-
**The explain screen against the decision path.**

`explain` finds the application by hostname, splits the group list itself, reads the traced rules
and takes its verdict from `Policy.explain`. `/decide` finds the application by slug, reads the
groups off the identity header and takes its verdict from `Policy.decide`.

* `explain_answered`: for a stored application the screen answers, with the decision over the
  application's rows for the user and groups it was asked about.
* `decidedMiss_of_names`: what `/decide` makes of oauth2-proxy's answer, from `authenticate` on.
* `explain_agrees_iff`: the screen agrees with `/decide` on every table, URI and time exactly when
  the `sub` is not empty and readable as header text and splitting with and without trimming names
  the same groups.
-/

import OpenBerat.Decide

namespace OpenBerat

open Lib (Plan)

open Store

/-! ### The handler -/

/-- The query string of `GET /api/admin/explain`. -/
structure ExplainQuery where
  user : Str
  groups : Option Str
  host : Str
  path : Str

/-- One rule of the answer, with its annotation. -/
structure WalkedRule where
  id : Uuid
  applicationId : Option Uuid
  subjectType : Str
  subjectId : Str
  effect : Str
  pathPattern : Str
  expiresAt : Option DateTime
  isMatched : Bool
  expired : Bool

/-- The body of an answer. -/
structure Explained where
  sub : Str
  groups : List Str
  host : Str
  application : Str
  enabled : Bool
  path : Str
  normalisedPath : Option Str
  decision : Str
  reason : Str
  rules : List WalkedRule

/-- What `explain` answers. -/
inductive ExplainResponse
  | badRequest (error : Str)
  | notFound (error host : Str)
  | failed
  | answered (body : Explained)

/-- The `decision` and `reason` fields of the body. -/
def ExplainResponse.pair : ExplainResponse → Option (Str × Str)
  | .answered body => some (body.decision, body.reason)
  | _ => none

/-- `split(',')`, trimmed, and the empty names dropped. -/
def explainGroups (groups : Str) : List Str :=
  ((groups.splitOn ',').map trim).filter fun name => !name.isEmpty

/-- The authority without its port, in lower case. -/
def explainHost (host : Str) : Str :=
  makeAsciiLowercase (firstPiece ':' host)

/-- An effect as the answer has it. -/
def effectText : Effect → Str
  | .allow => "allow".toList
  | .deny => "deny".toList

/-- A rule as the screen shows it, with what the walk has found. -/
def walkedRule (row : TracedRule) (trace : Policy.RuleTrace) : WalkedRule :=
  { id := row.id
    applicationId := row.applicationId
    subjectType := row.subjectType
    subjectId := row.subjectId
    effect := effectText row.rule.effect
    pathPattern := row.rule.pathPattern
    expiresAt := row.rule.expiresAt
    isMatched := trace.matched
    expired := trace.expired }

/-- `GET /api/admin/explain`; the two arguments are its queries, nothing where one failed. -/
def explain (findHost : Str → Option (Option ApplicationRow))
    (traced : Uuid → Str → List Str → Option (List TracedRule)) (query : ExplainQuery)
    (now : DateTime) : ExplainResponse :=
  match query.groups with
  | none => .badRequest ("groups is required (comma-separated, empty for a user in none): " ++
      "the backend holds no directory, and explaining without them drops " ++
      "every group rule and reports a denial that would not happen").toList
  | some groups =>
    let groups := explainGroups groups
    let host := explainHost query.host
    match findHost host with
    | none => .failed
    | some none => .notFound "no application answers on that hostname".toList host
    | some (some app) =>
      match traced app.id query.user groups with
      | none => .failed
      | some traced =>
        let trace := Policy.explain app.enabled (traced.map (·.rule)) query.path now
        .answered
          { sub := query.user
            groups := groups
            host := host
            application := app.slug
            enabled := app.enabled
            path := query.path
            normalisedPath := trace.path
            decision := trace.decision.asPair.1
            reason := trace.decision.asPair.2
            rules := List.zipWith walkedRule traced trace.rules }

/-- The application of a hostname. -/
def findHost (db : Db) (host : Str) : Option ApplicationRow :=
  db.applications.find? fun row => row.externalHostname == host

/-- The handler with both queries answered from the tables. -/
def explainFrom (db : Db) (collation : Collation) (plan : Plan EntitlementRow)
    (query : ExplainQuery) (now : DateTime) : ExplainResponse :=
  explain (fun host => some (findHost db host))
    (fun id sub groups => some (tracedRulesFor db collation plan id sub groups)) query now

/-! ### Finding the application -/

theorem mem_of_shaped {separator : Char → Bool} {fresh : Bool} {text : Str}
    (shape : shaped separator fresh text = true) {char : Char} (member : char ∈ text) :
    lowerAlnum char = true ∨ separator char = true := by
  induction text generalizing fresh with
  | nil => cases member
  | cons head rest ih =>
    unfold shaped at shape
    rw [Bool.or_eq_true, Bool.and_eq_true, Bool.and_eq_true, Bool.and_eq_true] at shape
    rcases List.mem_cons.mp member with rfl | member
    · rcases shape with ⟨alnum, _⟩ | ⟨⟨_, sep⟩, _⟩
      · exact Or.inl alnum
      · exact Or.inr sep
    · rcases shape with ⟨_, shape⟩ | ⟨_, shape⟩
      · exact ih shape member
      · exact ih shape member

theorem toLower_of_lowerAlnum {char : Char} (alnum : lowerAlnum char = true) :
    char.toLower = char := by
  refine toLower_of_not_upper (Bool.eq_false_iff.mpr fun upper => ?_)
  have bounds := isUpper_iff.mp upper
  unfold lowerAlnum at alnum
  rcases Bool.or_eq_true_iff.mp alnum with lower | digit
  · have low := of_decide_eq_true ((Bool.and_eq_true _ _).mp lower).1
    exact absurd ((UInt32.le_iff_toNat_le.mp low).trans bounds.2) (by decide)
  · have high := of_decide_eq_true ((Bool.and_eq_true _ _).mp digit).2
    exact absurd (bounds.1.trans (UInt32.le_iff_toNat_le.mp high)) (by decide)

/-- A stored hostname is already in the form the screen looks it up by. -/
theorem explainHost_stored (app : ApplicationRow) :
    explainHost app.externalHostname = app.externalHostname := by
  have chars : ∀ char ∈ app.externalHostname, char ≠ ':' ∧ char.toLower = char := by
    intro char member
    rcases mem_of_shaped app.hostnameCheck member with alnum | sep
    · exact ⟨by rintro rfl; exact absurd alnum (by decide), toLower_of_lowerAlnum alnum⟩
    · rcases Bool.or_eq_true_iff.mp sep with same | same
      · rw [beq_iff_eq.mp same]
        exact ⟨by decide, by decide⟩
      · rw [beq_iff_eq.mp same]
        exact ⟨by decide, by decide⟩
  have whole : firstPiece ':' app.externalHostname = app.externalHostname := by
    rcases Policy.firstPiece_cut ':' app.externalHostname with same | ⟨rest, same⟩
    · exact same.symm
    · have colon : ':' ∈ app.externalHostname := by
        rw [same]
        exact List.mem_append_right _ List.mem_cons_self
      exact absurd rfl (chars ':' colon).1
  unfold explainHost
  rw [whole]
  unfold makeAsciiLowercase
  conv_rhs => rw [← List.map_id app.externalHostname]
  exact List.map_congr_left fun char member => (chars char member).2

theorem findHost_stored {db : Db} {app : ApplicationRow} (member : app ∈ db.applications) :
    findHost db app.externalHostname = some app := by
  unfold findHost
  cases found : db.applications.find? fun row => row.externalHostname == app.externalHostname with
  | none => exact absurd (List.find?_eq_none.mp found app member) (by simp)
  | some other =>
    have passes := List.find?_some found
    rw [List.inj_on_of_nodup_map db.hostnameUnique (List.mem_of_find?_eq_some found) member
      (beq_iff_eq.mp passes)]

/-- **For a stored application the screen answers**, with the decision over its own rows. -/
theorem explain_answered {db : Db} (collation : Collation) (plan : Plan EntitlementRow)
    {app : ApplicationRow} (member : app ∈ db.applications) (user groups uri : Str)
    (now : DateTime) :
    (explainFrom db collation plan ⟨user, some groups, app.externalHostname, uri⟩ now).pair =
      some (Policy.decide app.enabled ((db.entitlements.filter
        (applicable app.id user (explainGroups groups))).map ruleOfRow) uri now).asPair := by
  have rules := @tracedRulesFor_perm db collation plan app.id user (explainGroups groups)
  unfold explainFrom explain
  simp only [explainHost_stored, findHost_stored member]
  show some (Policy.decide app.enabled _ uri now).asPair = _
  rw [Policy.decide_congr fun rule => rules.mem_iff]

/-! ### The two splits -/

theorem trim_trim (text : Str) : trim (trim text) = trim text := by
  unfold trim
  have inner : ∀ list : Str, (list.rdropWhile isWhitespace).dropWhile isWhitespace = list →
      trim list = list := fun _ same => same
  generalize kept : (text.rdropWhile isWhitespace).dropWhile isWhitespace = shown
  have head : shown.dropWhile isWhitespace = shown := by
    rw [← kept, List.dropWhile_idempotent]
  have tail : shown.rdropWhile isWhitespace = shown := by
    rw [List.rdropWhile_eq_self_iff]
    intro some
    have suffix : shown <:+ text.rdropWhile isWhitespace := kept ▸ List.dropWhile_suffix _
    obtain ⟨front, whole⟩ := suffix
    have last : (text.rdropWhile isWhitespace).getLast (by rw [← whole]; simp [some]) =
        shown.getLast some := by
      simp [← whole, some]
    rw [← last]
    exact List.rdropWhile_last_not _ _ _
  rw [tail, head]

theorem mem_explainGroups {groups name : Str} :
    name ∈ explainGroups groups ↔
      (∃ piece ∈ groups.splitOn ',', trim piece = name) ∧ name ≠ [] := by
  unfold explainGroups
  rw [List.mem_filter, List.mem_map]
  simp

/-- **When trimming makes no difference.** A readable list must be trimmed already; of an unreadable
one `/decide` sees nothing, so nothing must be left after trimming. -/
theorem same_groups_iff (http : HeaderText) {identity : Identity} {groups : Str}
    (sent : identity.groups = asBytes groups) :
    (∀ name, name ∈ groupsOf http identity ↔ name ∈ explainGroups groups) ↔
      (Readable groups ∧ ∀ piece ∈ groupNames groups, trim piece = piece) ∨
        (¬ Readable groups ∧ ∀ piece ∈ groups.splitOn ',', trim piece = []) := by
  unfold groupsOf
  rw [sent, http.text_asBytes]
  by_cases readable : Readable groups
  · rw [if_pos readable]
    simp only [readable, true_and, not_true_eq_false, false_and, or_false]
    constructor
    · intro same piece member
      obtain ⟨⟨other, _, trimmed⟩, _⟩ := mem_explainGroups.mp ((same piece).mp member)
      rw [← trimmed, trim_trim]
    · intro trimmed name
      rw [mem_explainGroups]
      constructor
      · intro member
        have piece := mem_groupNames.mp member
        exact ⟨⟨name, piece.1, trimmed name member⟩, piece.2⟩
      · rintro ⟨⟨piece, member, rfl⟩, some⟩
        have nonempty : piece ≠ [] := by
          rintro rfl
          exact some rfl
        have kept := mem_groupNames.mpr ⟨member, nonempty⟩
        rwa [trimmed piece kept]
  · rw [if_neg readable]
    simp only [readable, false_and, not_false_eq_true, true_and, false_or]
    have none : ∀ name, name ∉ groupNames [] := fun name => List.not_mem_nil
    simp only [none, false_iff, mem_explainGroups, not_and, not_not]
    exact ⟨fun same piece member => same (trim piece) ⟨piece, member, rfl⟩,
      fun blank name ⟨piece, member, same⟩ => same ▸ blank piece member⟩

/-! ### One application under one rule -/

namespace Explain

/-- An entitlement table of one allow on the whole of `wiki`. -/
def allowOne (row : EntitlementRow) : Db where
  applications := [Miss.wiki]
  entitlements := [row]
  slugUnique := Miss.tables.slugUnique
  hostnameUnique := Miss.tables.hostnameUnique

/-- An allow for a group. -/
def allowGroup (name : Str) (nonempty : name ≠ []) : EntitlementRow where
  id := 2
  applicationId := some 1
  subjectType := "ad_group".toList
  subjectId := name
  effect := "allow".toList
  pathPattern := []
  expiresAt := none
  subjectTypeCheck := Miss.denyStaff.subjectTypeCheck
  subjectIdCheck := nonempty
  effectCheck := Miss.allowUser.effectCheck
  pathPatternCheck := Miss.allowUser.pathPatternCheck

/-- An allow for a user. -/
def allowSub (sub : Str) (nonempty : sub ≠ []) : EntitlementRow :=
  { allowGroup sub nonempty with
    subjectType := "user".toList
    subjectTypeCheck := Miss.allowUser.subjectTypeCheck }

/-- oauth2-proxy's answer about a user with these groups. -/
def answer (sub groups : Str) : Decide.AuthResponse :=
  .answered 202 (fun name =>
    if name = "x-auth-request-user".toList then some (asBytes sub)
    else if name = "x-auth-request-groups".toList then some (asBytes groups)
    else none) []

/-- Under one allow on the whole application, root access tells whether the row applies. -/
theorem decide_allowOne {row : EntitlementRow} (allows : ruleOfRow row = ⟨.allow, [], none⟩)
    (sub : Str) (groups : List Str) :
    Policy.decide Miss.wiki.enabled (([row].filter (applicable Miss.wiki.id sub groups)).map
      ruleOfRow) ['/'] 0 =
        if applicable Miss.wiki.id sub groups row then .allow else .deny .noMatchingGrant := by
  rw [List.filter_cons]
  cases applies : applicable Miss.wiki.id sub groups row with
  | true =>
    rw [if_pos rfl, if_pos rfl, List.filter_nil, List.map_singleton, allows]
    decide +kernel
  | false =>
    rw [if_neg Bool.false_ne_true, if_neg Bool.false_ne_true, List.filter_nil, List.map_nil]
    decide +kernel

end Explain

/-! ### The two answers -/

/-- oauth2-proxy's answer is about this user with these groups; an absent group header is an empty
one. -/
def Names (sub groups : Str) : Decide.AuthResponse → Prop
  | .unanswered => False
  | .answered status headers _ => 200 ≤ status ∧ status < 300 ∧
      headers "x-auth-request-user".toList = some (asBytes sub) ∧
      (headers "x-auth-request-groups".toList).getD [] = asBytes groups

theorem Explain.names_answer (sub groups : Str) : Names sub groups (Explain.answer sub groups) :=
  ⟨by decide, by decide, rfl, rfl⟩

variable (http : HeaderText)

/-- What `decided` decides on a miss, from oauth2-proxy's answer on; nothing for somebody who has to
log in. -/
def decidedMiss (db : Db) (plan : Plan EntitlementRow) (slug : Str)
    (response : Decide.AuthResponse) (uri : Str) (now : DateTime) : Option Decision :=
  match Decide.authenticate response with
  | .anonymous => none
  | .unavailable => some (.deny .authUnavailable)
  | .verified identity _ => some (missDecision http db plan slug identity uri now)

/-- **Whoever oauth2-proxy names is decided about**, unless the name is empty: that is an outage. -/
theorem decidedMiss_of_names {sub groups : Str} {response : Decide.AuthResponse}
    (names : Names sub groups response) (db : Db) (plan : Plan EntitlementRow) (slug uri : Str)
    (now : DateTime) :
    (sub = [] → decidedMiss http db plan slug response uri now = some (.deny .authUnavailable)) ∧
      (sub ≠ [] → ∃ identity : Identity, identity.sub = asBytes sub ∧
        identity.groups = asBytes groups ∧ decidedMiss http db plan slug response uri now =
          some (missDecision http db plan slug identity uri now)) := by
  cases response with
  | unanswered => exact names.elim
  | answered status headers setCookie =>
    obtain ⟨above, below, user, sent⟩ := names
    have known : status ≠ 401 := by omega
    unfold decidedMiss Decide.authenticate
    simp only [if_neg known, if_neg (not_not.mpr (And.intro above below)), user]
    constructor
    · rintro rfl
      rfl
    · intro named
      have filled : asBytes sub ≠ [] := fun empty => named (Lib.utf8_injective empty)
      rw [if_pos filled]
      exact ⟨_, rfl, sent, rfl⟩

/-- The screen and `/decide` give one answer about this user with these groups, whatever the tables
hold. -/
def AlwaysAgree (sub groups : Str) : Prop :=
  ∀ response, Names sub groups response →
    ∀ (db : Db) (collation : Collation) (tracedPlan rulesPlan : Plan EntitlementRow),
      ∀ app ∈ db.applications, ∀ uri, Readable uri → ∀ now,
        (explainFrom db collation tracedPlan
          ⟨sub, some groups, app.externalHostname, uri⟩ now).pair =
          (decidedMiss http db rulesPlan app.slug response uri now).map Decision.asPair

/-- The screen never reports an outage, so it cannot agree about nobody. -/
theorem named_of_agree {sub groups : Str} (agree : AlwaysAgree http sub groups) : sub ≠ [] := by
  intro nobody
  let row := Explain.allowGroup ['b'] (by decide)
  have member : Miss.wiki ∈ (Explain.allowOne row).applications := List.mem_cons_self
  have same := agree _ (Explain.names_answer sub groups) (Explain.allowOne row)
    Collation.codePoint (Plan.table _) (Plan.table _) Miss.wiki member ['/'] (by decide) 0
  rw [explain_answered Collation.codePoint _ member,
    (decidedMiss_of_names http (Explain.names_answer sub groups) _ _ _ _ _).1 nobody,
    Option.map_some, Option.some.injEq, Decision.asPair_injective.eq_iff] at same
  have left := @Explain.decide_allowOne row rfl sub (explainGroups groups)
  rw [show (Explain.allowOne row).entitlements = [row] from rfl, left] at same
  split at same
  · cases same
  · cases same

/-- Where the two agree about somebody, one row applies to both or to neither. -/
theorem applicable_of_agree {sub groups : Str} (agree : AlwaysAgree http sub groups)
    {row : EntitlementRow} (allows : ruleOfRow row = ⟨.allow, [], none⟩) :
    applicable Miss.wiki.id sub (explainGroups groups) row =
      applicable Miss.wiki.id (http.text (asBytes sub))
        (groupsOf http ⟨asBytes sub, [], [], asBytes groups⟩) row := by
  have member : Miss.wiki ∈ (Explain.allowOne row).applications := List.mem_cons_self
  have same := agree _ (Explain.names_answer sub groups) (Explain.allowOne row)
    Collation.codePoint (Plan.table _) (Plan.table _) Miss.wiki member ['/'] (by decide) 0
  obtain ⟨identity, user, sent, decided⟩ := (decidedMiss_of_names http
    (Explain.names_answer sub groups) (Explain.allowOne row) (Plan.table _) Miss.wiki.slug ['/']
    0).2 (named_of_agree http agree)
  have seen : groupsOf http identity = groupsOf http ⟨asBytes sub, [], [], asBytes groups⟩ := by
    unfold groupsOf
    rw [sent]
  rw [explain_answered Collation.codePoint _ member, decided, missDecision_eq http member,
    Option.map_some, Option.some.injEq, Decision.asPair_injective.eq_iff, user, seen] at same
  have left := Explain.decide_allowOne allows sub (explainGroups groups)
  have right := Explain.decide_allowOne allows (http.text (asBytes sub))
    (groupsOf http ⟨asBytes sub, [], [], asBytes groups⟩)
  rw [show (Explain.allowOne row).entitlements = [row] from rfl, left, right] at same
  split at same <;> split at same
  all_goals simp_all

/-- **The screen never disagrees with the decision exactly when there is a user, the header loses
nothing and trimming changes nothing.** -/
theorem explain_agrees_iff (sub groups : Str) :
    AlwaysAgree http sub groups ↔
      sub ≠ [] ∧ Readable sub ∧
        ((Readable groups ∧ ∀ piece ∈ groupNames groups, trim piece = piece) ∨
          (¬ Readable groups ∧ ∀ piece ∈ groups.splitOn ',', trim piece = [])) := by
  constructor
  · intro agree
    have some := named_of_agree http agree
    refine ⟨some, ?_, (@same_groups_iff http ⟨asBytes sub, [], [], asBytes groups⟩ groups rfl).mp
      fun name => ?_⟩
    · by_contra hidden
      have same := @applicable_of_agree http sub groups agree (Explain.allowSub sub some) rfl
      rw [http.text_asBytes, if_neg hidden] at same
      simp [applicable, namesSubject, Explain.allowSub, Explain.allowGroup, Miss.wiki, some] at same
    · by_cases empty : name = []
      · subst empty
        exact iff_of_false (fun member => (mem_groupNames.mp member).2 rfl)
          (fun member => (mem_explainGroups.mp member).2 rfl)
      · have same := @applicable_of_agree http sub groups agree (Explain.allowGroup name empty) rfl
        rw [Bool.eq_iff_iff] at same
        simpa [applicable, namesSubject, Explain.allowGroup, Miss.wiki] using same.symm
  · rintro ⟨named, readable, trimmed⟩ response names db collation tracedPlan rulesPlan app member
      uri _ now
    obtain ⟨identity, sentSub, sentGroups, decided⟩ :=
      (decidedMiss_of_names http names db rulesPlan app.slug uri now).2 named
    have groupsSame := (same_groups_iff http sentGroups).mpr trimmed
    have rows : applicable app.id sub (explainGroups groups) =
        applicable app.id (http.text identity.sub) (groupsOf http identity) := by
      funext row
      unfold applicable namesSubject
      rw [sentSub, http.text_asBytes, if_pos readable]
      simp only [groupsSame]
    rw [explain_answered collation tracedPlan member, decided, missDecision_eq http member, rows]
    rfl

/-- A space behind the comma: the screen reports the allow of group `b`, `/decide` finds no
grant. -/
theorem explain_disagrees :
    (explainFrom (Explain.allowOne (Explain.allowGroup ['b'] (by decide))) Collation.codePoint
      (Plan.table _) ⟨"u1".toList, some "a, b".toList, "wiki.apps".toList, ['/']⟩ 0).pair =
        some Decision.allow.asPair ∧
    decidedMiss HeaderText.documented (Explain.allowOne (Explain.allowGroup ['b'] (by decide)))
      (Plan.table _) "wiki".toList (Explain.answer "u1".toList "a, b".toList) ['/'] 0 =
        some (.deny .noMatchingGrant) := by
  exact ⟨by decide +kernel, by decide +kernel⟩

end OpenBerat
