/-
**The decision.**

`Policy.decide` over a rule list: deny over allow over nothing, under every reading of the path.
`Policy.explain` annotates the same walk and takes its verdict from `Policy.decide`.
-/

import OpenBerat.Policy.Normalise

namespace OpenBerat

/-- Nanoseconds on the wall clock (`DateTime<Utc>`). -/
abbrev DateTime := Int

/-- `Effect`. -/
inductive Effect
  | allow
  | deny
  deriving DecidableEq, Repr

/-- One entitlement row, already narrowed to one user and one application. -/
structure Rule where
  effect : Effect
  pathPattern : Str
  expiresAt : Option DateTime
  deriving DecidableEq, Repr

/-- `Decision`: an allow, or a deny with its reason. -/
inductive Decision
  | allow
  | deny (reason : Deny)
  deriving DecidableEq, Repr

/-- The `(decision, reason)` pair the audit columns hold. -/
def Decision.asPair : Decision → Str × Str
  | .allow => ("allow".toList, "allowed".toList)
  | .deny reason => ("deny".toList, reason.asStr)

/-- The pair determines the decision. -/
theorem Decision.asPair_injective : Function.Injective Decision.asPair := by
  have differ : "allow".toList ≠ "deny".toList := by decide
  intro first second same
  cases first with
  | allow =>
    cases second with
    | allow => rfl
    | deny reason => exact absurd (congrArg Prod.fst same) differ
  | deny first =>
    cases second with
    | allow => exact absurd (congrArg Prod.fst same) differ.symm
    | deny second => rw [Deny.asStr_injective (congrArg Prod.snd same)]

namespace Policy

/-- `r.expires_at.is_none_or(|e| e > now)`. -/
def live (now : DateTime) (rule : Rule) : Bool :=
  match rule.expiresAt with
  | none => true
  | some expires => now < expires

/-- The pattern without its stars, resolved, lower-cased and without its trailing separator. -/
def patternText (pattern : Str) : Str :=
  trimEndMatches '/' (makeAsciiLowercase (resolve (trimEndMatches '*' pattern)))

/-- The source's `matches`: the boundary is a segment, not a character. -/
def matchesPattern (pattern path : Str) : Bool :=
  let base := patternText pattern
  base.isEmpty || path == base || (stripPrefix base path).any fun rest => ['/'].isPrefixOf rest

/-- `decide_path`: a live deny that matches, else a live allow that matches, else no grant. -/
def decidePath (rules : List Rule) (path : Str) (now : DateTime) : Decision :=
  if (rules.filter (live now)).any fun rule =>
      rule.effect == .deny && matchesPattern rule.pathPattern path then .deny .explicitDeny
  else if (rules.filter (live now)).any fun rule =>
      rule.effect == .allow && matchesPattern rule.pathPattern path then .allow
  else .deny .noMatchingGrant

/-- How the decisions of the readings are combined: an explicit deny first, then any other
refusal. -/
def combine (decisions : List Decision) : Decision :=
  match decisions.find? (· == .deny .explicitDeny) with
  | some decision => decision
  | none => (decisions.find? (· != .allow)).getD .allow

/-- `decide`: the decisions of all readings of the URI, combined. -/
def decide (appEnabled : Bool) (rules : List Rule) (rawUri : Str) (now : DateTime) : Decision :=
  match readings rawUri with
  | .error reason => .deny reason
  | .ok paths =>
    if !appEnabled then .deny .applicationDisabled
    else combine (paths.map fun path => decidePath rules path now)

/-- A decision depends on the set of rules only, not on their order or number. -/
theorem decidePath_congr {first second : List Rule} (same : ∀ rule, rule ∈ first ↔ rule ∈ second)
    (path : Str) (now : DateTime) : decidePath first path now = decidePath second path now := by
  have any : ∀ test : Rule → Bool,
      (first.filter (live now)).any test = (second.filter (live now)).any test := fun test => by
    rw [Bool.eq_iff_iff]
    simp only [List.any_eq_true, List.mem_filter, same]
  unfold decidePath
  rw [any, any]

theorem decide_congr {first second : List Rule} (same : ∀ rule, rule ∈ first ↔ rule ∈ second)
    (appEnabled : Bool) (rawUri : Str) (now : DateTime) :
    Policy.decide appEnabled first rawUri now = Policy.decide appEnabled second rawUri now := by
  unfold Policy.decide
  simp only [decidePath_congr same]

/-! ### The explain screen's annotation -/

/-- `RuleTrace`: what becomes of one rule. -/
structure RuleTrace where
  matched : Bool
  expired : Bool
  deriving DecidableEq, Repr

/-- Why `decide` answered as it did. -/
structure Trace where
  decision : Decision
  path : Option Str
  rules : List RuleTrace
  deriving DecidableEq, Repr

/-- `explain`: the decision, the path as `normalise` reads it, and each rule under that path. -/
def explain (appEnabled : Bool) (rules : List Rule) (rawUri : Str) (now : DateTime) : Trace :=
  let path := (normalise rawUri).toOption
  { decision := decide appEnabled rules rawUri now
    path := path
    rules := rules.map fun rule =>
      { matched := path.any (matchesPattern rule.pathPattern)
        expired := rule.expiresAt.any (· ≤ now) } }

end Policy

end OpenBerat
