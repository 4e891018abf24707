/-
**The three readings against any upstream.**

An upstream turns a raw URI into the path it serves by dropping the query, perhaps cutting every
segment at its first `;`, and taking one percent decoding and one resolution of dot segments in
either order, perhaps with `\` as a separator. The three readings of a decision are three upstreams
of this family (`readings_eq`), and none of the family fails where `normalise` does not
(`serves_accepted`).

* `agrees_iff`: for every upstream and every URI, *every* request that is allowed is allowed as the
  upstream reads it if and only if the upstream's place lies between places of the three readings.
* `decodingFirst_agrees_iff`, `droppingParams_agrees_iff`: the two orders that are not among the
  three, with a URI each on which a granted subtree is left.
-/

import Mathlib.Data.Option.Basic
import OpenBerat.Policy.Decoding

namespace OpenBerat.Policy

open Lib (Sandwiched verdict)

/-! ### Upstreams -/

/-- The order in which an upstream decodes and resolves. -/
inductive Order
  | decodeFirst (foldsBackslash : Bool)
  | resolveFirst
  deriving DecidableEq

/-- How an upstream gets from a raw request URI to the path it serves. -/
structure Upstream where
  dropsParams : Bool
  order : Order
  deriving DecidableEq

namespace Upstream

/-- The raw path the upstream goes on with. -/
def cut (server : Upstream) (path : Str) : Str :=
  if server.dropsParams then unparametered path else path

/-- The path the upstream serves, in lower case. -/
def serves (server : Upstream) (rawUri : Str) : Option Str :=
  let path := server.cut (rawPath rawUri)
  match server.order with
  | .decodeFirst foldsBackslash => (decodeText path).toOption.map fun decoded =>
      makeAsciiLowercase
        (resolve (if foldsBackslash then replaceChar '\\' '/' decoded else decoded))
  | .resolveFirst => (decodeText (resolve path)).toOption.map makeAsciiLowercase

/-- Where the upstream serves the request from. -/
def placeOf (server : Upstream) (rawUri : Str) : List Str :=
  ((server.serves rawUri).map place).getD []

/-- **Whatever is allowed is allowed as the upstream reads it.** -/
def AgreesOn (server : Upstream) (rawUri : Str) : Prop :=
  ∀ (appEnabled : Bool) (rules : List Rule) (now : DateTime),
    Policy.decide appEnabled rules rawUri now = .allow →
      ∃ path, server.serves rawUri = some path ∧ decidePath rules path now = .allow

/-- The three upstreams whose readings a decision takes. -/
def checked : List Upstream :=
  [⟨false, .decodeFirst true⟩, ⟨false, .resolveFirst⟩, ⟨true, .resolveFirst⟩]

/-- Decodes once and then resolves, with `\` as an ordinary character. -/
def decodingFirst : Upstream :=
  ⟨false, .decodeFirst false⟩

/-- Cuts `;params` off every raw segment, decodes once and then resolves. -/
def droppingParams : Upstream :=
  ⟨true, .decodeFirst false⟩

end Upstream

open Upstream

/-- `normalise` lets the URI pass. -/
def Accepted (rawUri : Str) : Prop :=
  ∃ path, normalise rawUri = .ok path

instance (rawUri : Str) : Decidable (Accepted rawUri) :=
  match found : normalise rawUri with
  | .ok path => isTrue ⟨path, found⟩
  | .error _ => isFalse fun ⟨path, same⟩ => by rw [found] at same; cases same

theorem normalise_eq_ok {rawUri path : Str} (accepted : normalise rawUri = .ok path) :
    ['/'] <+: rawPath rawUri ∧ ∃ decoded, decodeText (rawPath rawUri) = .ok decoded ∧
      path = makeAsciiLowercase (resolve (replaceChar '\\' '/' decoded)) := by
  unfold normalise at accepted
  by_cases refused : ¬ ['/'] <+: rawPath rawUri ∨ '#' ∈ rawPath rawUri
  · rw [if_pos refused] at accepted
    cases accepted
  · rw [if_neg refused] at accepted
    rw [not_or, not_not] at refused
    cases found : decodeText (rawPath rawUri) with
    | error reason =>
      rw [found] at accepted
      cases accepted
    | ok decoded =>
      rw [found] at accepted
      refine ⟨refused.1, decoded, rfl, ?_⟩
      dsimp only at accepted
      split at accepted
      · cases accepted
      · split at accepted
        · cases accepted
        · exact (Except.ok.inj accepted).symm

/-- **No upstream fails to read a URI that `normalise` accepts.** -/
theorem serves_accepted (server : Upstream) {rawUri : Str} (accepted : Accepted rawUri) :
    ∃ path, server.serves rawUri = some path := by
  obtain ⟨path, same⟩ := accepted
  obtain ⟨_, decoded, found, _⟩ := normalise_eq_ok same
  have cuts : Decodes (server.cut (rawPath rawUri)) := by
    unfold cut
    split
    · exact decodes_unparametered ⟨decoded, found⟩
    · exact ⟨decoded, found⟩
  unfold serves
  cases server.order with
  | decodeFirst foldsBackslash =>
    obtain ⟨text, same⟩ := cuts
    exact ⟨_, by simp only [same]; rfl⟩
  | resolveFirst =>
    obtain ⟨text, same⟩ := decodes_resolve cuts
    exact ⟨_, by simp only [same]; rfl⟩

/-- A path that is read starts at the root. -/
theorem slash_prefix_serves {server : Upstream} {rawUri path : Str}
    (found : server.serves rawUri = some path) : ['/'] <+: path := by
  have lowered : ∀ text, ['/'] <+: text → ['/'] <+: makeAsciiLowercase text := by
    rintro text ⟨rest, rfl⟩
    exact ⟨makeAsciiLowercase rest, rfl⟩
  unfold serves at found
  cases order : server.order with
  | decodeFirst foldsBackslash =>
    rw [order] at found
    obtain ⟨decoded, _, rfl⟩ := Option.map_eq_some_iff.mp found
    exact lowered _ (slash_prefix_resolve _)
  | resolveFirst =>
    rw [order] at found
    obtain ⟨text, decoded, rfl⟩ := Option.map_eq_some_iff.mp found
    obtain ⟨rest, shape⟩ := slash_prefix_resolve (server.cut (rawPath rawUri))
    cases outcome : decodeText (resolve (server.cut (rawPath rawUri))) with
    | error reason =>
      rw [outcome] at decoded
      cases decoded
    | ok value =>
      rw [outcome] at decoded
      cases decoded
      rw [← shape] at outcome
      obtain ⟨left, right, leftOk, _, rfl⟩ :=
        (decodeText_append separator_slash [] rest text).mp outcome
      cases leftOk
      exact lowered _ ⟨right, rfl⟩

/-- **The readings of a decision are what the three checked upstreams serve.** -/
theorem readings_eq {rawUri : Str} {paths : List Str} :
    readings rawUri = .ok paths ↔
      Accepted rawUri ∧ checked.map (·.serves rawUri) = paths.map some := by
  by_cases accepted : Accepted rawUri
  · obtain ⟨path, normal⟩ := accepted
    obtain ⟨_, decoded, found, rfl⟩ := normalise_eq_ok normal
    obtain ⟨second, secondOk⟩ := decodes_resolve ⟨decoded, found⟩
    obtain ⟨third, thirdOk⟩ := decodes_resolve (decodes_unparametered ⟨decoded, found⟩)
    have value : readings rawUri =
        .ok [makeAsciiLowercase (resolve (replaceChar '\\' '/' decoded)),
          makeAsciiLowercase second, makeAsciiLowercase third] := by
      unfold readings decodeLower
      simp only [normal, secondOk, thirdOk]
      rfl
    have served : checked.map (·.serves rawUri) =
        [makeAsciiLowercase (resolve (replaceChar '\\' '/' decoded)),
          makeAsciiLowercase second, makeAsciiLowercase third].map some := by
      show [(decodeText (rawPath rawUri)).toOption.map fun decoded =>
          makeAsciiLowercase (resolve (replaceChar '\\' '/' decoded)),
        (decodeText (resolve (rawPath rawUri))).toOption.map makeAsciiLowercase,
        (decodeText (resolve (unparametered (rawPath rawUri)))).toOption.map makeAsciiLowercase] = _
      rw [found, secondOk, thirdOk]
      rfl
    rw [value, served, Except.ok.injEq,
      (List.map_injective_iff.mpr (Option.some_injective Str)).eq_iff]
    exact (and_iff_right ⟨_, normal⟩).symm
  · refine iff_of_false (fun same => ?_) fun both => accepted both.1
    unfold readings at same
    cases normal : normalise rawUri with
    | error reason =>
      rw [normal] at same
      cases same
    | ok path => exact accepted ⟨path, normal⟩

/-! ### From decisions to places -/

theorem combine_eq_allow {decisions : List Decision} :
    combine decisions = .allow ↔ ∀ decision ∈ decisions, decision = .allow := by
  unfold combine
  constructor
  · intro same decision member
    cases denied : decisions.find? (· == .deny .explicitDeny) with
    | some found =>
      rw [denied] at same
      cases same
      exact absurd (List.find?_some denied) (by decide)
    | none =>
      rw [denied] at same
      cases other : decisions.find? (· != .allow) with
      | some found =>
        rw [other] at same
        cases same
        exact absurd (List.find?_some other) (by decide)
      | none => simpa using List.find?_eq_none.mp other decision member
  · intro all
    have denied : decisions.find? (· == .deny .explicitDeny) = none :=
      List.find?_eq_none.mpr fun decision member => by rw [all decision member]; decide
    have other : decisions.find? (· != .allow) = none :=
      List.find?_eq_none.mpr fun decision member => by rw [all decision member]; decide
    rw [denied, other]
    rfl

/-- An explicit deny under any reading is the answer. -/
theorem combine_eq_explicitDeny {decisions : List Decision}
    (denied : .deny .explicitDeny ∈ decisions) : combine decisions = .deny .explicitDeny := by
  unfold combine
  cases found : decisions.find? (· == .deny .explicitDeny) with
  | none => exact absurd (List.find?_eq_none.mp found _ denied) (by simp)
  | some decision =>
    have passes := List.find?_some found
    exact beq_iff_eq.mp passes

/-- The first reading is the normal form. -/
theorem readings_of_normalise {rawUri path : Str} (normal : normalise rawUri = .ok path) :
    ∃ rest, readings rawUri = .ok (path :: rest) := by
  have accepted : Accepted rawUri := ⟨path, normal⟩
  obtain ⟨second, secondServed⟩ := serves_accepted ⟨false, .resolveFirst⟩ accepted
  obtain ⟨third, thirdServed⟩ := serves_accepted ⟨true, .resolveFirst⟩ accepted
  have first : Upstream.serves ⟨false, .decodeFirst true⟩ rawUri = some path := by
    obtain ⟨_, decoded, found, rfl⟩ := normalise_eq_ok normal
    show (decodeText (rawPath rawUri)).toOption.map _ = _
    rw [found]
    rfl
  refine ⟨[second, third], readings_eq.mpr ⟨accepted, ?_⟩⟩
  simp only [checked, List.map_cons, List.map_nil, first, secondServed, thirdServed]

/-- **A live deny that matches the normal form is never overridden.** -/
theorem decide_eq_explicitDeny {rules : List Rule} {rawUri path : Str} {now : DateTime}
    (normal : normalise rawUri = .ok path) {rule : Rule} (member : rule ∈ rules)
    (denies : rule.effect = .deny) (current : live now rule = true)
    (matched : matchesPattern rule.pathPattern path = true) :
    Policy.decide true rules rawUri now = .deny .explicitDeny := by
  obtain ⟨rest, found⟩ := readings_of_normalise normal
  have onPath : decidePath rules path now = .deny .explicitDeny := by
    unfold decidePath
    refine if_pos (List.any_eq_true.mpr ⟨rule, List.mem_filter.mpr ⟨member, current⟩, ?_⟩)
    rw [denies, matched]
    rfl
  unfold Policy.decide
  rw [found]
  refine combine_eq_explicitDeny ?_
  rw [List.map_cons, onPath]
  exact List.mem_cons_self

/-- **An allow is an allow under every reading.** -/
theorem decide_eq_allow {appEnabled : Bool} {rules : List Rule} {rawUri : Str} {now : DateTime} :
    Policy.decide appEnabled rules rawUri now = .allow ↔
      appEnabled = true ∧ ∃ paths, readings rawUri = .ok paths ∧
        ∀ path ∈ paths, decidePath rules path now = .allow := by
  unfold Policy.decide
  cases readings rawUri with
  | error reason => simp
  | ok paths =>
    cases appEnabled with
    | false => simp
    | true =>
      simp only [Bool.not_true, Bool.false_eq_true, if_false, combine_eq_allow, List.mem_map,
        forall_exists_index, and_imp, forall_apply_eq_imp_iff₂, true_and, Except.ok.injEq,
        exists_eq_left']

theorem placeOf_eq {server : Upstream} {rawUri path : Str}
    (found : server.serves rawUri = some path) :
    server.placeOf rawUri = place path := by
  unfold placeOf
  rw [found]
  rfl

theorem expressible_placeOf (server : Upstream) (rawUri : Str) :
    Expressible (server.placeOf rawUri) := by
  intro segment member
  cases found : server.serves rawUri with
  | none =>
    unfold placeOf at member
    rw [found] at member
    cases member
  | some path =>
    rw [placeOf_eq found] at member
    exact place_plain member

theorem admitted_iff {server : Upstream} {rawUri : Str} (accepted : Accepted rawUri)
    {rules : List Rule} {now : DateTime} :
    (∃ path, server.serves rawUri = some path ∧ decidePath rules path now = .allow) ↔
      verdict (grants rules now) (server.placeOf rawUri) = .admitted := by
  obtain ⟨path, found⟩ := serves_accepted server accepted
  rw [placeOf_eq found, ← decidePath_eq_allow (slash_prefix_serves found)]
  exact ⟨fun ⟨other, same, allowed⟩ => by rw [found] at same; cases same; exact allowed,
    fun allowed => ⟨path, found, allowed⟩⟩

/-- An accepted request is allowed exactly when the three places are admitted. -/
theorem decide_iff_places {rawUri : Str} (accepted : Accepted rawUri) {rules : List Rule}
    {now : DateTime} :
    Policy.decide true rules rawUri now = .allow ↔
      ∀ reading ∈ checked.map (·.placeOf rawUri),
        verdict (grants rules now) reading = .admitted := by
  obtain ⟨first, firstServed⟩ := serves_accepted ⟨false, .decodeFirst true⟩ accepted
  obtain ⟨second, secondServed⟩ := serves_accepted ⟨false, .resolveFirst⟩ accepted
  obtain ⟨third, thirdServed⟩ := serves_accepted ⟨true, .resolveFirst⟩ accepted
  have served : checked.map (·.serves rawUri) = [first, second, third].map some := by
    simp only [checked, List.map_cons, List.map_nil, firstServed, secondServed, thirdServed]
  have places : checked.map (·.placeOf rawUri) = [place first, place second, place third] := by
    simp only [checked, List.map_cons, List.map_nil, placeOf_eq firstServed,
      placeOf_eq secondServed, placeOf_eq thirdServed]
  rw [decide_eq_allow, places]
  simp only [true_and, readings_eq.mpr ⟨accepted, served⟩, Except.ok.injEq, exists_eq_left',
    List.forall_mem_cons, List.not_mem_nil, false_imp_iff, implies_true, and_true,
    decidePath_eq_allow (slash_prefix_serves firstServed),
    decidePath_eq_allow (slash_prefix_serves secondServed),
    decidePath_eq_allow (slash_prefix_serves thirdServed)]

/-- **An upstream agrees on a URI exactly when its place lies between the checked places.** Where it
does not, a rule list with one deny or with three allows tells them apart. -/
theorem agrees_iff (server : Upstream) (rawUri : Str) :
    server.AgreesOn rawUri ↔
      (Accepted rawUri →
        Sandwiched (checked.map (·.placeOf rawUri)) (server.placeOf rawUri)) := by
  constructor
  · intro agrees accepted
    refine (Lib.admits_everywhere_iff Expressible (fun _ member => absurd member (by simp))
      (fun reading member => ?_) (expressible_placeOf server rawUri)).mp ?_
    · obtain ⟨other, _, rfl⟩ := List.mem_map.mp member
      exact expressible_placeOf other rawUri
    · intro list expressible admitted
      have same := exists_rules expressible 0
      rw [← same] at admitted ⊢
      exact (admitted_iff accepted).mp (agrees true _ 0 ((decide_iff_places accepted).mpr admitted))
  · intro between appEnabled rules now allowed
    obtain ⟨enabled, paths, found, _⟩ := decide_eq_allow.mp allowed
    have accepted := (readings_eq.mp found).1
    subst enabled
    exact (admitted_iff accepted).mpr (Lib.admitted_of_sandwiched (between accepted)
      ((decide_iff_places accepted).mp allowed))

/-- An upstream whose place is one of the checked places agrees on every URI. -/
theorem agrees_of_checked {server : Upstream} (member : server ∈ checked) (rawUri : Str) :
    server.AgreesOn rawUri :=
  (agrees_iff server rawUri).mpr fun _ =>
    ⟨⟨_, List.mem_map_of_mem member, List.prefix_refl _⟩,
      ⟨_, List.mem_map_of_mem member, List.prefix_refl _⟩⟩

/-! ### The two orders that are not checked -/

theorem agrees_of_serves_eq {server other : Upstream} {rawUri : Str} (member : other ∈ checked)
    (same : server.serves rawUri = other.serves rawUri) : server.AgreesOn rawUri := by
  have agrees := agrees_of_checked member rawUri
  unfold AgreesOn at agrees ⊢
  rwa [same]

/-- Without a backslash in the decoded path, decoding first is the first reading. -/
theorem decodingFirst_agrees_of_no_backslash {rawUri decoded : Str}
    (found : decodeText (rawPath rawUri) = .ok decoded) (free : '\\' ∉ decoded) :
    decodingFirst.AgreesOn rawUri := by
  have folded : replaceChar '\\' '/' decoded = decoded := by
    unfold replaceChar
    conv_rhs => rw [← List.map_id decoded]
    exact List.map_congr_left fun char member =>
      if_neg fun same : char = '\\' => free (same ▸ member)
  refine @agrees_of_serves_eq _ ⟨false, .decodeFirst true⟩ _ (by decide) ?_
  show (decodeText (rawPath rawUri)).toOption.map (fun decoded =>
      makeAsciiLowercase (resolve decoded)) =
    (decodeText (rawPath rawUri)).toOption.map fun decoded =>
      makeAsciiLowercase (resolve (replaceChar '\\' '/' decoded))
  rw [found]
  show some (makeAsciiLowercase (resolve decoded)) =
    some (makeAsciiLowercase (resolve (replaceChar '\\' '/' decoded)))
  rw [folded]

/-- **Without an escape in the path the order does not matter**: decoding first is resolving
first. -/
theorem agrees_of_no_escape (dropsParams : Bool) {rawUri : Str} (plain : '%' ∉ rawPath rawUri) :
    Upstream.AgreesOn ⟨dropsParams, .decodeFirst false⟩ rawUri := by
  have cutPlain : '%' ∉ Upstream.cut ⟨dropsParams, .resolveFirst⟩ (rawPath rawUri) := by
    unfold cut
    split
    · exact fun member => plain (mem_of_mem_unparametered (by decide) member)
    · exact plain
  refine @agrees_of_serves_eq _ ⟨dropsParams, .resolveFirst⟩ _
    (by cases dropsParams <;> decide) ?_
  show (decodeText (Upstream.cut ⟨dropsParams, .resolveFirst⟩ (rawPath rawUri))).toOption.map
      (fun decoded => makeAsciiLowercase (resolve decoded)) =
    (decodeText (resolve (Upstream.cut ⟨dropsParams, .resolveFirst⟩ (rawPath rawUri)))).toOption.map
      makeAsciiLowercase
  rw [decodeText_of_plain cutPlain, decodeText_of_plain fun member =>
    cutPlain (mem_of_mem_resolve (by decide) member)]
  rfl

/-- **Decoding first, with a backslash as data.** Every allowed request is allowed as such an
upstream reads it if and only if its place lies between the places of the three readings. -/
theorem decodingFirst_agrees_iff (rawUri : Str) :
    (∀ (appEnabled : Bool) (rules : List Rule) (now : DateTime),
      Policy.decide appEnabled rules rawUri now = .allow →
        ∃ path, decodingFirst.serves rawUri = some path ∧ decidePath rules path now = .allow) ↔
    (Accepted rawUri →
      Sandwiched (checked.map (·.placeOf rawUri)) (decodingFirst.placeOf rawUri)) :=
  agrees_iff decodingFirst rawUri

/-- Only `/public/*` is granted. -/
def publicOnly : List Rule :=
  [⟨.allow, "/public/*".toList, none⟩]

/-- The grant of `/public/*` is left for `/admin/`: the backslashes are separators to the reading
that resolves the encoded dots, and the encoded dots are data to the readings that do not fold. -/
theorem decodingFirst_leaves_grant :
    Policy.decide true publicOnly "/public/%2e%2e/admin/x\\..\\..\\..\\public/y".toList 0 = .allow ∧
    decodingFirst.serves "/public/%2e%2e/admin/x\\..\\..\\..\\public/y".toList =
      some "/admin/x\\..\\..\\..\\public/y".toList ∧
    decidePath publicOnly "/admin/x\\..\\..\\..\\public/y".toList 0 =
      .deny .noMatchingGrant := by
  decide +kernel

/-- **Dropping parameters and then decoding first.** -/
theorem droppingParams_agrees_iff (rawUri : Str) :
    (∀ (appEnabled : Bool) (rules : List Rule) (now : DateTime),
      Policy.decide appEnabled rules rawUri now = .allow →
        ∃ path, droppingParams.serves rawUri = some path ∧ decidePath rules path now = .allow) ↔
    (Accepted rawUri →
      Sandwiched (checked.map (·.placeOf rawUri)) (droppingParams.placeOf rawUri)) :=
  agrees_iff droppingParams rawUri

/-- The grant of `/public/*` is left for `/admin/`: the first reading keeps the parameter, the third
resolves before it decodes the dots. -/
theorem droppingParams_leaves_grant :
    Policy.decide true publicOnly "/public/%2e%2e;/admin/".toList 0 = .allow ∧
    droppingParams.serves "/public/%2e%2e;/admin/".toList = some "/admin/".toList ∧
    decidePath publicOnly "/admin/".toList 0 = .deny .noMatchingGrant := by
  decide +kernel

end OpenBerat.Policy
