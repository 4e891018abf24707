/-
**The checks of the API and the checks of the schema.**

What the handlers accept they write, and the columns have constraints of their own. Slugs,
hostnames, names and every field of an entitlement pass the second gate where they pass the first.
An upstream is checked as the URL library reads it and stored as it was typed.

* `labelled_iff`: the hand-written scanner accepts the language of the schema's expression.
* `shaped_iff`: so does the field of a stored row.
* `checks_created`, `checks_updated`: a row passes exactly when its upstream is typed as it is read.
* `entitlement_checks`: an accepted entitlement passes.
-/

import OpenBerat.Lib.Regular
import OpenBerat.Nginx.Gates
import OpenBerat.Policy.Pattern

namespace OpenBerat.Schema

open Lib (Regular)
open Nginx (Application ApplicationPatch NewApplication createApplication updateApplication
  optional)
open Validate (UrlParser labelled)

/-! ### The expressions -/

/-- `^[a-z0-9]+(-[a-z0-9]+)*$`. -/
def slugPattern : Regular Char :=
  .labels lowerAlnum (· == '-')

/-- `^[a-z0-9]+([.-][a-z0-9]+)*$`. -/
def hostnamePattern : Regular Char :=
  .labels lowerAlnum fun char => char == '.' || char == '-'

/-- `^https?://[^[:space:]]+$`; which characters are spaces is up to the collation. -/
def upstreamPattern (space : Char → Bool) : Regular Char :=
  .seq (.literal "http".toList) (.seq (.opt (.literal ['s']))
    (.seq (.literal "://".toList) (.plus (.set fun char => !space char))))

/-- The column checks of `application`. -/
structure ApplicationChecks (space : Char → Bool) (app : Application) : Prop where
  slug : app.slug ∈ slugPattern.language
  externalHostname : app.externalHostname ∈ hostnamePattern.language
  name : app.name ≠ []
  upstreamUrl : app.upstreamUrl ∈ (upstreamPattern space).language

/-! ### Entitlements -/

/-- The body of `POST /api/admin/entitlements`. -/
structure NewEntitlement where
  applicationId : Option Uuid
  subjectType : Str
  subjectId : Str
  effect : Str
  pathPattern : Str
  expiresAt : Option DateTime

/-- The values of the row that is inserted. -/
structure Entitlement where
  applicationId : Option Uuid
  subjectType : Str
  subjectId : Str
  effect : Str
  pathPattern : Str
  expiresAt : Option DateTime

/-- `create_entitlement` up to the row it inserts. -/
def createEntitlement (new : NewEntitlement) : Except Str Entitlement :=
  if ¬ ["ad_group".toList, "user".toList].contains new.subjectType then
    .error "subject_type must be ad_group or user".toList
  else if ¬ ["allow".toList, "deny".toList].contains new.effect then
    .error "effect must be allow or deny".toList
  else
    let subjectId := trim new.subjectId
    if subjectId = [] then .error "subject_id is required".toList
    else if new.subjectType = "ad_group".toList ∧ ',' ∈ subjectId then
      .error "an AD group name cannot contain a comma".toList
    else match Validate.validatePathPattern new.pathPattern with
      | .error why => .error why
      | .ok () => .ok ⟨new.applicationId, new.subjectType, subjectId, new.effect, new.pathPattern,
          new.expiresAt⟩

/-- The column checks of `entitlement`. -/
structure EntitlementChecks (row : Entitlement) : Prop where
  subjectType : row.subjectType = "ad_group".toList ∨ row.subjectType = "user".toList
  subjectId : row.subjectId ≠ []
  effect : row.effect = "allow".toList ∨ row.effect = "deny".toList
  pathPattern : row.pathPattern = [] ∨ ['/'] <+: row.pathPattern

/-- **An accepted entitlement passes.** -/
theorem entitlement_checks {new : NewEntitlement} {row : Entitlement}
    (created : createEntitlement new = .ok row) : EntitlementChecks row := by
  unfold createEntitlement at created
  dsimp only at created
  split at created
  · cases created
  · rename_i kind
    split at created
    · cases created
    · rename_i effect
      split at created
      · cases created
      · rename_i subject
        split at created
        · cases created
        · split at created
          · cases created
          · rename_i accepted
            cases created
            have kinds := List.contains_iff_mem.mp (not_not.mp kind)
            have effects := List.contains_iff_mem.mp (not_not.mp effect)
            simp only [List.mem_cons, List.not_mem_nil, or_false] at kinds effects
            refine ⟨kinds, subject, effects, ?_⟩
            obtain ⟨segments, _, ⟨empty, _⟩ | shape⟩ :=
              Policy.validatePathPattern_eq_ok.mp accepted
            · exact Or.inl empty
            · refine Or.inr ?_
              rw [shape]
              cases segments with
              | nil => exact ⟨['*'], rfl⟩
              | cons segment segments => exact ⟨_, rfl⟩

/-! ### Labels -/

section Labels

variable {separators : List Char}

/-- **The scanner accepts the language of the expression.** -/
theorem labelled_iff (apart : ∀ char ∈ separators, lowerAlnum char = false) {value : Str} :
    labelled value separators = true ↔
      value ∈ (Regular.labels lowerAlnum separators.contains).language := by
  have disjoint : ∀ char, lowerAlnum char = true → separators.contains char = false := by
    intro char alnum
    rw [Bool.eq_false_iff, Ne, List.contains_iff_mem]
    intro member
    rw [apart char member] at alnum
    cases alnum
  have letters : ∀ label : Str, ((asBytes label).all fun byte =>
      Validate.isAsciiLowercase byte || isAsciiDigit byte) = true ↔
        ∀ char ∈ label, lowerAlnum char = true := by
    intro label
    rw [Validate.label_bytes]
    exact forall₂_congr fun char _ => (Bool.or_eq_true _ _ ▸ Iff.rfl)
  unfold labelled
  rw [Regular.mem_labels disjoint, Bool.and_eq_true, Bool.not_eq_true', List.isEmpty_eq_false_iff,
    List.all_eq_true]
  constructor
  · rintro ⟨_, all⟩ piece listed
    have each := all piece listed
    rw [Bool.and_eq_true, Bool.not_eq_true', List.isEmpty_eq_false_iff] at each
    exact ⟨each.1, (letters piece).mp each.2⟩
  · intro all
    refine ⟨?_, fun piece listed => ?_⟩
    · rintro rfl
      exact (all [] (by rw [List.splitOnP_nil]; exact List.mem_singleton_self _)).1 rfl
    · rw [Bool.and_eq_true, Bool.not_eq_true', List.isEmpty_eq_false_iff]
      exact ⟨(all piece listed).1, (letters piece).mpr (all piece listed).2⟩

theorem slug_iff {value : Str} :
    labelled value ['-'] = true ↔ value ∈ slugPattern.language := by
  have same : (['-'] : List Char).contains = (· == '-') := by
    funext char
    exact Bool.or_false _
  rw [labelled_iff (List.forall_mem_singleton.mpr (by decide)), same]
  exact Iff.rfl

theorem hostname_iff {value : Str} :
    labelled value ['.', '-'] = true ↔ value ∈ hostnamePattern.language := by
  have same : (['.', '-'] : List Char).contains = fun char => char == '.' || char == '-' := by
    funext char
    exact congrArg (char == '.' || ·) (Bool.or_false _)
  rw [labelled_iff (List.forall_mem_cons.mpr
    ⟨by decide, List.forall_mem_singleton.mpr (by decide)⟩), same]
  exact Iff.rfl

/-- The recursion that a stored row passes, piece by piece. -/
theorem shaped_pieces {separator : Char → Bool}
    (apart : ∀ char, lowerAlnum char = true → separator char = false) {fresh : Bool}
    {text first : Str} {rest : List Str} (split : text.splitOnP separator = first :: rest) :
    shaped separator fresh text = true ↔
      (fresh = true → first ≠ []) ∧ (∀ char ∈ first, lowerAlnum char = true) ∧
        ∀ piece ∈ rest, piece ≠ [] ∧ ∀ char ∈ piece, lowerAlnum char = true := by
  induction text generalizing fresh first rest with
  | nil =>
    rw [List.splitOnP_nil] at split
    obtain ⟨rfl, rfl⟩ := List.cons.inj split
    show (!fresh) = true ↔ _
    rw [Bool.not_eq_true']
    constructor
    · rintro rfl
      exact ⟨fun same => (nomatch same), fun _ member => (nomatch member),
        fun _ member => nomatch member⟩
    · exact fun all => Bool.eq_false_iff.mpr fun begins => all.1 begins rfl
  | cons char text ih =>
    obtain ⟨head, tail, shape⟩ := List.exists_cons_of_ne_nil (List.splitOnP_ne_nil separator text)
    rw [List.splitOnP_cons_eq_if_modifyHead, shape] at split
    unfold shaped
    rw [Bool.or_eq_true, Bool.and_eq_true, Bool.and_eq_true, Bool.and_eq_true, Bool.not_eq_true',
      ih shape, ih shape]
    by_cases separates : separator char = true
    · have noLetter : ¬ lowerAlnum char = true := by
        intro alnum
        rw [apart char alnum] at separates
        cases separates
      rw [if_pos separates] at split
      obtain ⟨rfl, rfl⟩ := List.cons.inj split
      rw [List.forall_mem_cons]
      constructor
      · rintro (⟨alnum, _⟩ | ⟨⟨old, _⟩, some, letters, later⟩)
        · exact absurd alnum noLetter
        · refine ⟨fun begins => ?_, fun _ member => (nomatch member), ⟨some rfl, letters⟩, later⟩
          rw [old] at begins
          cases begins
      · rintro ⟨begins, _, ⟨some, letters⟩, later⟩
        exact Or.inr ⟨⟨Bool.eq_false_iff.mpr fun fresh => begins fresh rfl, separates⟩,
          fun _ => some, letters, later⟩
    · rw [if_neg separates, List.modifyHead_cons] at split
      obtain ⟨rfl, rfl⟩ := List.cons.inj split
      rw [List.forall_mem_cons]
      constructor
      · rintro (⟨alnum, _, letters, later⟩ | ⟨⟨_, isSeparator⟩, _⟩)
        · exact ⟨fun _ => List.cons_ne_nil _ _, ⟨alnum, letters⟩, later⟩
        · exact absurd isSeparator separates
      · rintro ⟨_, ⟨alnum, letters⟩, later⟩
        exact Or.inl ⟨alnum, fun same => (nomatch same), letters, later⟩

/-- **A stored row's field is the expression's language too.** -/
theorem shaped_iff {separator : Char → Bool}
    (apart : ∀ char, lowerAlnum char = true → separator char = false) {text : Str} :
    shaped separator true text = true ↔ text ∈ (Regular.labels lowerAlnum separator).language := by
  obtain ⟨first, rest, shape⟩ := List.exists_cons_of_ne_nil (List.splitOnP_ne_nil separator text)
  rw [shaped_pieces apart shape, Regular.mem_labels apart, shape, List.forall_mem_cons, and_assoc]
  exact and_congr_left' ⟨fun some => some rfl, fun some _ => some⟩

end Labels

/-! ### The upstream as it is typed -/

/-- Typed in lower case with both separators, and no space behind them. -/
def Bare (space : Char → Bool) (raw : Str) : Prop :=
  ∃ rest, (raw = "http://".toList ++ rest ∨ raw = "https://".toList ++ rest) ∧
    ∀ char ∈ rest, space char = false

theorem mem_upstreamPattern {space : Char → Bool} {raw : Str} :
    raw ∈ (upstreamPattern space).language ↔
      ∃ rest, (raw = "http://".toList ++ rest ∨ raw = "https://".toList ++ rest) ∧ rest ≠ [] ∧
        ∀ char ∈ rest, space char = false := by
  have behind : ∀ {text : Str}, text ∈ (Regular.seq (.literal "://".toList)
      (.plus (.set fun char => !space char))).language ↔
      ∃ rest, text = "://".toList ++ rest ∧ rest ≠ [] ∧ ∀ char ∈ rest, space char = false := by
    intro text
    rw [Regular.mem_literal_seq]
    simp only [Regular.mem_plus, Bool.not_eq_true', and_comm]
  unfold upstreamPattern
  rw [Regular.mem_literal_seq]
  constructor
  · rintro ⟨tail, matched, rfl⟩
    obtain ⟨scheme, optional, back, found, rfl⟩ := Regular.mem_seq.mp matched
    obtain ⟨rest, rfl, some, free⟩ := behind.mp found
    refine ⟨rest, ?_, some, free⟩
    rcases (Language.mem_add _ _ _).mp optional with secure | none
    · obtain ⟨_, ⟨letter, same, rfl⟩, nothing, empty, rfl⟩ := Regular.mem_seq.mp secure
      obtain rfl : letter = 's' := of_decide_eq_true same
      obtain rfl := (Language.mem_one _).mp empty
      exact Or.inr rfl
    · obtain rfl := (Language.mem_one _).mp none
      exact Or.inl rfl
  · rintro ⟨rest, shape, some, free⟩
    have found := behind.mpr ⟨rest, rfl, some, free⟩
    rcases shape with rfl | rfl
    · exact ⟨_, Regular.mem_seq.mpr ⟨[], (Language.mem_add _ _ _).mpr (Or.inr rfl), _, found, rfl⟩,
        rfl⟩
    · refine ⟨'s' :: ("://".toList ++ rest),
        Regular.mem_seq.mpr ⟨['s'], (Language.mem_add _ _ _).mpr
        (Or.inl ?_), _, found, rfl⟩, rfl⟩
      exact Regular.mem_seq.mpr ⟨['s'], ⟨'s', rfl, rfl⟩, [], rfl, rfl⟩

/-- A URL of one of the two schemes needs a host. -/
def NeedsHost (urls : UrlParser) : Prop :=
  ∀ raw ∈ ["http://".toList, "https://".toList], urls.parse raw = none

section Rows

variable {urls : UrlParser} {space : Char → Bool} {portalOrigin : Str}

/-- **An accepted upstream passes where it is typed bare.** -/
theorem upstream_iff (needsHost : NeedsHost urls) {raw : Str}
    (accepted : Validate.validateUpstream urls raw = .ok ()) :
    raw ∈ (upstreamPattern space).language ↔ Bare space raw := by
  rw [mem_upstreamPattern]
  unfold Bare
  refine exists_congr fun rest => and_congr_right fun shape => and_iff_right ?_
  rintro rfl
  rw [List.append_nil, List.append_nil] at shape
  obtain ⟨url, _, parsed, _⟩ := Validate.validateUpstream_eq_ok accepted
  have refused := needsHost raw (by rcases shape with rfl | rfl <;> simp)
  rw [refused] at parsed
  cases parsed

theorem name_of_validateName {raw name : Str} (accepted : Validate.validateName raw = .ok name) :
    name ≠ [] := by
  unfold Validate.validateName at accepted
  dsimp only at accepted
  split at accepted
  · cases accepted
  · rename_i some
    split at accepted
    · cases accepted
    · cases accepted
      exact some

/-- **A created row passes exactly when its upstream is typed bare.** -/
theorem checks_created (needsHost : NeedsHost urls) {id : Uuid} {new : NewApplication}
    {app : Application} (created : createApplication urls portalOrigin id new = .ok app) :
    ApplicationChecks space app ↔ Bare space new.upstreamUrl := by
  unfold createApplication at created
  simp only [Validate.bind_eq_ok] at created
  obtain ⟨_, slug, _, upstream, hostname, host, name, named, icon, _, same⟩ := created
  cases same
  obtain ⟨rfl, labels, _, _⟩ := Validate.validateHostname_eq_ok.mp host
  constructor
  · exact fun checks => (upstream_iff needsHost upstream).mp checks.upstreamUrl
  · exact fun bare => ⟨slug_iff.mp (Validate.validateSlug_eq_ok.mp slug), hostname_iff.mp labels,
      name_of_validateName named, (upstream_iff needsHost upstream).mpr bare⟩

/-- **So does a row that is changed**, where the patch brings an upstream. -/
theorem checks_updated (needsHost : NeedsHost urls) {patch : ApplicationPatch}
    {app next : Application}
    (stored : ApplicationChecks space app) (updated : updateApplication urls patch app = .ok next) :
    ApplicationChecks space next ↔ ∀ raw, patch.upstreamUrl = some raw → Bare space raw := by
  unfold updateApplication at updated
  simp only [Validate.bind_eq_ok] at updated
  obtain ⟨_, upstream, name, named, icon, _, same⟩ := updated
  cases same
  have filled : name.getD app.name ≠ [] := by
    cases present : patch.name with
    | none =>
      rw [present] at named
      cases named
      exact stored.name
    | some raw =>
      obtain ⟨checked, passed⟩ := Nginx.optional_eq_ok named present
      rw [present] at named
      unfold Nginx.optional at named
      dsimp only at named
      rw [passed] at named
      cases named
      exact name_of_validateName passed
  have column : (patch.upstreamUrl.getD app.upstreamUrl ∈ (upstreamPattern space).language) ↔
      ∀ raw, patch.upstreamUrl = some raw → Bare space raw := by
    cases present : patch.upstreamUrl with
    | none => exact iff_of_true stored.upstreamUrl fun _ same => nomatch same
    | some raw =>
      obtain ⟨_, accepted⟩ := Nginx.optional_eq_ok upstream present
      rw [Option.getD_some, upstream_iff needsHost accepted]
      exact ⟨fun bare other same => Option.some.inj same ▸ bare, fun all => all raw rfl⟩
  exact ⟨fun checks => column.mp checks.upstreamUrl,
    fun all => ⟨stored.slug, stored.externalHostname, filled, column.mpr all⟩⟩

/-- **What the handlers accept, the columns accept**, but for an upstream that is not typed bare;
and the scanners accept the languages of the two expressions. -/
theorem stored_checks (urls : UrlParser) (space : Char → Bool) (portalOrigin : Str)
    (needsHost : NeedsHost urls) :
    (∀ id new app, createApplication urls portalOrigin id new = .ok app →
      (ApplicationChecks space app ↔ Bare space new.upstreamUrl)) ∧
    (∀ patch app next, ApplicationChecks space app → updateApplication urls patch app = .ok next →
      (ApplicationChecks space next ↔ ∀ raw, patch.upstreamUrl = some raw → Bare space raw)) ∧
    (∀ new row, createEntitlement new = .ok row → EntitlementChecks row) ∧
    (∀ value, labelled value ['-'] = true ↔ value ∈ slugPattern.language) ∧
    ∀ value, labelled value ['.', '-'] = true ↔ value ∈ hostnamePattern.language :=
  ⟨fun _ _ _ created => checks_created needsHost created,
    fun _ _ _ stored updated => checks_updated needsHost stored updated,
    fun _ _ created => entitlement_checks created, fun _ => slug_iff, fun _ => hostname_iff⟩

end Rows

/-! ### A scheme in upper case -/

namespace Shouted

/-- An upstream typed in upper case. -/
def raw : Str := "HTTP://wiki:8080".toList

/-- The library on the one URL, whose scheme it lower-cases. -/
def urls : UrlParser where
  parse text := if text = raw then some
    { scheme := "http".toList
      username := []
      password := none
      host := some (.domain "wiki".toList)
      hostStr := some "wiki".toList
      port := some 8080
      path := ['/']
      query := none
      fragment := none } else none

/-- The portal's origin. -/
def portal : Str := "https://portal.apps.example.local".toList

/-- A body with that upstream. -/
def typed : NewApplication where
  slug := "wiki".toList
  name := "Wiki".toList
  icon := none
  upstreamUrl := raw
  externalHostname := "wiki.apps.example.local".toList
  enabled := true

/-- The row that is bound for it. -/
def row : Application where
  id := 1
  slug := "wiki".toList
  name := "Wiki".toList
  icon := none
  upstreamUrl := raw
  externalHostname := "wiki.apps.example.local".toList
  enabled := true

/-- The spaces of the C locale. -/
def space (char : Char) : Bool :=
  char = ' ' || 9 ≤ char.toNat && char.toNat ≤ 13

theorem needsHost : NeedsHost urls := by
  intro text member
  simp only [List.mem_cons, List.not_mem_nil, or_false] at member
  rcases member with rfl | rfl <;> rfl

end Shouted

open Shouted in
theorem stored_checks_shouted : NeedsHost urls ∧
    ∀ id new app, createApplication urls portal id new = .ok app →
      (ApplicationChecks space app ↔ Bare space new.upstreamUrl) :=
  ⟨needsHost, (stored_checks urls space portal needsHost).1⟩

open Shouted in
/-- **The handler accepts a row that the table refuses.** -/
theorem shouted_refused : createApplication urls portal 1 typed = .ok row ∧
    ¬ ApplicationChecks space row := by
  have created : createApplication urls portal 1 typed = .ok row := by rfl
  refine ⟨created, fun checks => ?_⟩
  obtain ⟨rest, shape, _⟩ := mem_upstreamPattern.mp checks.upstreamUrl
  rcases shape with same | same
  · exact absurd (List.head_eq_of_cons_eq same) (by decide)
  · exact absurd (List.head_eq_of_cons_eq same) (by decide)

end OpenBerat.Schema
