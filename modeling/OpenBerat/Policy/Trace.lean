/-
**The trace beside a verdict.**

The explain screen matches the rules against one reading and shows the verdict of all three. A rule
it traces as matched and not expired is one that hits the normal form.

* `explain_path_eq_none`: no path, no verdict but a malformed URI.
* `explain_sound`: what the traced rules say about the verdict.
-/

import OpenBerat.Policy.RuleSet

namespace OpenBerat.Policy

variable {appEnabled : Bool} {rules : List Rule} {rawUri path : Str} {now : DateTime}

/-- A rule is traced as expired exactly where it is not live. -/
theorem expired_eq (rule : Rule) (now : DateTime) :
    rule.expiresAt.any (· ≤ now) = !live now rule := by
  unfold live
  cases rule.expiresAt with
  | none => rfl
  | some expires =>
    show Decidable.decide (expires ≤ now) = !Decidable.decide (now < expires)
    rw [← decide_not]
    exact decide_eq_decide.mpr not_lt.symm

/-- The rules as the screen shows them. -/
def traced (appEnabled : Bool) (rules : List Rule) (rawUri : Str) (now : DateTime) :
    List (Rule × RuleTrace) :=
  rules.zip (explain appEnabled rules rawUri now).rules

theorem mem_traced {pair : Rule × RuleTrace} :
    pair ∈ traced appEnabled rules rawUri now ↔ pair.1 ∈ rules ∧
      pair.2.matched = (normalise rawUri).toOption.any (matchesPattern pair.1.pathPattern) ∧
      pair.2.expired = !live now pair.1 := by
  obtain ⟨rule, matched, expired⟩ := pair
  show _ ∈ rules.zip (rules.map _) ↔ _
  rw [← List.map_prod_left_eq_zip, List.mem_map]
  constructor
  · rintro ⟨other, member, same⟩
    cases same
    exact ⟨member, rfl, expired_eq rule now⟩
  · rintro ⟨member, sameMatched, sameExpired⟩
    refine ⟨rule, member, ?_⟩
    dsimp only at sameMatched sameExpired
    rw [sameMatched, sameExpired, expired_eq]

/-- **No path, no rules consulted**: the other readings cannot fail where the first succeeds. -/
theorem explain_path_eq_none :
    (explain appEnabled rules rawUri now).path = none ↔
      (explain appEnabled rules rawUri now).decision = .deny .malformedUri := by
  show (normalise rawUri).toOption = none ↔ Policy.decide appEnabled rules rawUri now = _
  rw [decide_eq_malformedUri_iff]
  unfold Accepted
  cases normalise rawUri with
  | error reason => exact iff_of_true rfl fun ⟨_, same⟩ => nomatch same
  | ok path => exact iff_of_false (fun same => nomatch same) (not_not.mpr ⟨path, rfl⟩)

/-- A traced rule that matches and is not expired is one that hits the normal form. -/
theorem hits_iff_traced {effect : Effect} (normal : normalise rawUri = .ok path) :
    Hits rules now effect path ↔ ∃ pair ∈ traced appEnabled rules rawUri now,
      pair.2.matched = true ∧ pair.2.expired = false ∧ pair.1.effect = effect := by
  rw [hits_iff]
  constructor
  · rintro ⟨rule, member, current, kind, matched⟩
    refine ⟨(rule, ⟨true, false⟩), mem_traced.mpr ⟨member, ?_, ?_⟩, rfl, rfl, kind⟩
    · rw [normal]
      exact matched.symm
    · rw [current]
      rfl
  · rintro ⟨⟨rule, trace⟩, member, matched, expired, kind⟩
    obtain ⟨listed, sameMatched, sameExpired⟩ := mem_traced.mp member
    rw [sameMatched, normal] at matched
    rw [sameExpired, Bool.not_eq_false'] at expired
    exact ⟨rule, listed, expired, kind, matched⟩

/-- **The trace is sound for the verdict beside it.** -/
theorem explain_sound (appEnabled : Bool) (rules : List Rule) (rawUri : Str) (now : DateTime) :
    ((explain appEnabled rules rawUri now).path = none ↔
      (explain appEnabled rules rawUri now).decision = .deny .malformedUri) ∧
    ((explain appEnabled rules rawUri now).path ≠ none → appEnabled = true →
      ((∃ pair ∈ traced appEnabled rules rawUri now, pair.2.matched = true ∧
        pair.2.expired = false ∧ pair.1.effect = .deny) →
        (explain appEnabled rules rawUri now).decision = .deny .explicitDeny) ∧
      ((explain appEnabled rules rawUri now).decision = .allow →
        (∃ pair ∈ traced appEnabled rules rawUri now, pair.2.matched = true ∧
          pair.2.expired = false ∧ pair.1.effect = .allow) ∧
        ¬ ∃ pair ∈ traced appEnabled rules rawUri now, pair.2.matched = true ∧
          pair.2.expired = false ∧ pair.1.effect = .deny)) ∧
    ((explain appEnabled rules rawUri now).path ≠ none → appEnabled = false →
      (explain appEnabled rules rawUri now).decision = .deny .applicationDisabled) ∧
    (explain appEnabled rules rawUri now).rules.length = rules.length ∧
    ∀ pair ∈ traced appEnabled rules rawUri now, pair.2.expired = !live now pair.1 := by
  have normal : (explain appEnabled rules rawUri now).path ≠ none →
      ∃ path, normalise rawUri = .ok path := by
    show (normalise rawUri).toOption ≠ none → _
    intro some
    cases found : normalise rawUri with
    | error reason =>
      rw [found] at some
      exact absurd rfl some
    | ok path => exact ⟨path, rfl⟩
  refine ⟨explain_path_eq_none, fun some enabled => ?_, fun some disabled => ?_, ?_, ?_⟩
  · obtain ⟨path, found⟩ := normal some
    subst enabled
    rw [← hits_iff_traced found, ← hits_iff_traced found]
    refine ⟨fun denied => ?_, fun allowed => ?_⟩
    · obtain ⟨rule, member, current, kind, matched⟩ := hits_iff.mp denied
      exact decide_eq_explicitDeny found member kind current matched
    · obtain ⟨_, paths, read, all⟩ := decide_eq_allow.mp allowed
      obtain ⟨rest, first⟩ := readings_of_normalise found
      obtain rfl := Except.ok.inj (read.symm.trans first)
      exact (decidePath_eq_allow_iff.mp (all path List.mem_cons_self)).symm
  · exact decide_eq_applicationDisabled_iff.mpr ⟨normal some, disabled⟩
  · exact List.length_map _
  · exact fun pair member => (mem_traced.mp member).2.2

end OpenBerat.Policy
