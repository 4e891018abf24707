/-
**A decision is about a set of rules.**

What a rule list says about a path is whether some live deny, and whether some live allow, hits it.
One reading's decision is a function of these two (`decidePath_eq`), and the combination of the
three readings is an explicit deny if one of them is, an allow if all of them are.

* `decide_of_sameLive`: only the live pairs of effect and pattern count.
* `decide_eq_explicitDeny_iff`: an explicit deny, whatever the allows.
* `decide_opens`: what turns a refusal into an allow.
* `decide_ruleSet`: order, repetition, expiry, one deny more, one allow more.
-/

import Mathlib.Data.Int.Order.Basic
import OpenBerat.Policy.Readings

namespace OpenBerat.Policy

/-- A live rule of the list has this effect and this pattern. -/
def LivePair (rules : List Rule) (now : DateTime) (effect : Effect) (pattern : Str) : Prop :=
  ∃ rule ∈ rules, live now rule = true ∧ rule.effect = effect ∧ rule.pathPattern = pattern

/-- Some live rule of this effect matches the path. -/
def Hits (rules : List Rule) (now : DateTime) (effect : Effect) (path : Str) : Prop :=
  ∃ pattern, LivePair rules now effect pattern ∧ matchesPattern pattern path = true

variable {rules other : List Rule} {now : DateTime} {rule : Rule} {path rawUri : Str}
  {appEnabled : Bool}

theorem hits_iff {effect : Effect} :
    Hits rules now effect path ↔ ∃ rule ∈ rules, live now rule = true ∧ rule.effect = effect ∧
      matchesPattern rule.pathPattern path = true := by
  constructor
  · rintro ⟨_, ⟨rule, member, current, kind, rfl⟩, matched⟩
    exact ⟨rule, member, current, kind, matched⟩
  · rintro ⟨rule, member, current, kind, matched⟩
    exact ⟨_, ⟨rule, member, current, kind, rfl⟩, matched⟩

theorem any_eq_true {effect : Effect} :
    ((rules.filter (live now)).any fun rule =>
      rule.effect == effect && matchesPattern rule.pathPattern path) = true ↔
        Hits rules now effect path := by
  rw [hits_iff, List.any_eq_true]
  simp only [List.mem_filter, Bool.and_eq_true, beq_iff_eq]
  constructor
  · rintro ⟨rule, ⟨member, current⟩, kind, matched⟩
    exact ⟨rule, member, current, kind, matched⟩
  · rintro ⟨rule, member, current, kind, matched⟩
    exact ⟨rule, ⟨member, current⟩, kind, matched⟩

/-! ### One reading -/

open Classical in
/-- **One reading's decision**, out of two bits. -/
theorem decidePath_eq (rules : List Rule) (path : Str) (now : DateTime) :
    decidePath rules path now =
      if Hits rules now .deny path then .deny .explicitDeny
      else if Hits rules now .allow path then .allow
      else .deny .noMatchingGrant := by
  unfold decidePath
  refine if_congr any_eq_true rfl (if_congr any_eq_true rfl rfl)

theorem decidePath_eq_explicitDeny :
    decidePath rules path now = .deny .explicitDeny ↔ Hits rules now .deny path := by
  classical
  rw [decidePath_eq]
  by_cases denied : Hits rules now .deny path
  · rw [if_pos denied]
    exact iff_of_true rfl denied
  · rw [if_neg denied]
    refine iff_of_false ?_ denied
    by_cases allowed : Hits rules now .allow path
    · rw [if_pos allowed]
      intro same
      cases same
    · rw [if_neg allowed]
      intro same
      cases same

theorem decidePath_eq_allow_iff :
    decidePath rules path now = .allow ↔
      ¬ Hits rules now .deny path ∧ Hits rules now .allow path := by
  classical
  rw [decidePath_eq]
  by_cases denied : Hits rules now .deny path
  · rw [if_pos denied]
    exact iff_of_false (fun same => by cases same) fun both => both.1 denied
  · rw [if_neg denied]
    by_cases allowed : Hits rules now .allow path
    · rw [if_pos allowed]
      exact iff_of_true rfl ⟨denied, allowed⟩
    · rw [if_neg allowed]
      exact iff_of_false (fun same => by cases same) fun both => allowed both.2

/-! ### What is refused before the rules are read -/

theorem percentDecodeBytes_eq_error {bytes : Bytes} {reason : Deny}
    (refused : percentDecodeBytes bytes = .error reason) : reason = .malformedUri := by
  have mapped : ∀ {result : Except Deny Bytes} {change : Bytes → Bytes},
      result.map change = .error reason → result = .error reason := by
    intro result change same
    cases result with
    | error other => exact same
    | ok bytes => cases same
  fun_induction percentDecodeBytes bytes with
  | case1 => cases refused
  | case2 byte rest _ ih => exact ih (mapped refused)
  | case3 byte high low rest highDigit highOk lowDigit lowOk _ ih => exact ih (mapped refused)
  | case4 => exact (Except.error.inj refused).symm
  | case5 => exact (Except.error.inj refused).symm

theorem decodeText_eq_error {path : Str} {reason : Deny}
    (refused : decodeText path = .error reason) :
    reason = .malformedUri := by
  unfold decodeText percentDecode at refused
  split at refused
  · rename_i other found
    rw [← Except.error.inj refused]
    exact percentDecodeBytes_eq_error found
  · split at refused
    · exact (Except.error.inj refused).symm
    · cases refused

/-- A URI is refused for one reason. -/
theorem normalise_eq_error {reason : Deny} (refused : normalise rawUri = .error reason) :
    reason = .malformedUri := by
  unfold normalise at refused
  dsimp only at refused
  split at refused
  · exact (Except.error.inj refused).symm
  · split at refused
    · rename_i other found
      rw [← Except.error.inj refused]
      exact decodeText_eq_error found
    · split at refused
      · exact (Except.error.inj refused).symm
      · split at refused
        · exact (Except.error.inj refused).symm
        · cases refused

theorem readings_eq_error {reason : Deny} (refused : readings rawUri = .error reason) :
    reason = .malformedUri := by
  cases found : normalise rawUri with
  | ok path =>
    obtain ⟨rest, read⟩ := readings_of_normalise found
    rw [read] at refused
    cases refused
  | error other =>
    unfold readings at refused
    rw [found] at refused
    rw [← Except.error.inj refused]
    exact normalise_eq_error found

theorem readings_three {paths : List Str} (read : readings rawUri = .ok paths) :
    ∃ first second third, paths = [first, second, third] := by
  unfold readings at read
  dsimp only at read
  split at read
  · cases read
  · split at read
    · cases read
      exact ⟨_, _, _, rfl⟩
    · cases read
    · cases read

/-! ### The three readings together -/

theorem mem_of_combine_eq_explicitDeny {decisions : List Decision}
    (denied : combine decisions = .deny .explicitDeny) : .deny .explicitDeny ∈ decisions := by
  unfold combine at denied
  cases found : decisions.find? (· == .deny .explicitDeny) with
  | some decision =>
    have member := List.mem_of_find?_eq_some found
    have passes := List.find?_some found
    rwa [beq_iff_eq.mp passes] at member
  | none =>
    rw [found] at denied
    dsimp only at denied
    cases second : decisions.find? (· != .allow) with
    | none =>
      rw [second] at denied
      cases denied
    | some decision =>
      rw [second] at denied
      exact (show decision = .deny .explicitDeny from denied) ▸ List.mem_of_find?_eq_some second

/-- **An explicit deny** is an enabled application, a URI that can be read, and one live deny that
matches one of its readings; the allows do not come in. -/
theorem decide_eq_explicitDeny_iff :
    Policy.decide appEnabled rules rawUri now = .deny .explicitDeny ↔
      appEnabled = true ∧ ∃ paths, readings rawUri = .ok paths ∧
        ∃ path ∈ paths, Hits rules now .deny path := by
  unfold Policy.decide
  cases found : readings rawUri with
  | error reason =>
    have malformed : reason = .malformedUri := readings_eq_error found
    rw [malformed]
    exact iff_of_false (fun same => by cases same) fun ⟨_, _, same, _⟩ => by cases same
  | ok paths =>
    dsimp only
    cases appEnabled with
    | false => exact iff_of_false (fun same => by cases same) fun both => by cases both.1
    | true =>
      show combine (paths.map _) = _ ↔ _
      constructor
      · intro denied
        obtain ⟨path, member, same⟩ := List.mem_map.mp (mem_of_combine_eq_explicitDeny denied)
        exact ⟨rfl, paths, rfl, path, member, decidePath_eq_explicitDeny.mp same⟩
      · rintro ⟨_, _, same, path, member, hit⟩
        obtain rfl := Except.ok.inj same
        refine combine_eq_explicitDeny (List.mem_map.mpr ⟨path, member, ?_⟩)
        exact decidePath_eq_explicitDeny.mpr hit

theorem combine_mem (decisions : List Decision) :
    combine decisions = .allow ∨ combine decisions ∈ decisions := by
  unfold combine
  cases denied : decisions.find? (· == .deny .explicitDeny) with
  | some decision => exact Or.inr (List.mem_of_find?_eq_some denied)
  | none =>
    cases other : decisions.find? (· != .allow) with
    | none => exact Or.inl rfl
    | some decision => exact Or.inr (List.mem_of_find?_eq_some other)

/-- The rules decide between three answers. -/
theorem combine_decidePath (rules : List Rule) (now : DateTime) (paths : List Str) :
    combine (paths.map fun path => decidePath rules path now) ∈
      [.allow, .deny .explicitDeny, .deny .noMatchingGrant] := by
  rcases combine_mem (paths.map fun path => decidePath rules path now) with allowed | member
  · rw [allowed]
    exact List.mem_cons_self
  · obtain ⟨path, _, same⟩ := List.mem_map.mp member
    rw [← same]
    unfold decidePath
    split
    · simp
    · split <;> simp

/-- The refusals that no rule has a part in. -/
theorem decide_eq_malformedUri_iff :
    Policy.decide appEnabled rules rawUri now = .deny .malformedUri ↔ ¬ Accepted rawUri := by
  unfold Policy.decide
  cases found : readings rawUri with
  | error reason =>
    rw [readings_eq_error found]
    refine iff_of_true rfl ?_
    rintro ⟨path, accepted⟩
    obtain ⟨rest, read⟩ := readings_of_normalise accepted
    rw [read] at found
    cases found
  | ok paths =>
    refine iff_of_false (fun same => ?_) (not_not.mpr (readings_eq.mp found).1)
    cases appEnabled with
    | false => cases same
    | true =>
      have three := combine_decidePath rules now paths
      rw [show combine _ = _ from same] at three
      simp at three

theorem decide_eq_applicationDisabled_iff :
    Policy.decide appEnabled rules rawUri now = .deny .applicationDisabled ↔
      Accepted rawUri ∧ appEnabled = false := by
  unfold Policy.decide
  cases found : readings rawUri with
  | error reason =>
    rw [readings_eq_error found]
    refine iff_of_false (fun same => by cases same) fun ⟨⟨path, accepted⟩, _⟩ => ?_
    obtain ⟨rest, read⟩ := readings_of_normalise accepted
    rw [read] at found
    cases found
  | ok paths =>
    have accepted := (readings_eq.mp found).1
    cases appEnabled with
    | false => exact iff_of_true rfl ⟨accepted, rfl⟩
    | true =>
      refine iff_of_false (fun same => ?_) fun both => by cases both.2
      have three := combine_decidePath rules now paths
      rw [show combine _ = _ from same] at three
      simp at three

/-- **Only the live pairs count.** -/
theorem decide_of_sameLive
    (same : ∀ effect pattern, LivePair rules now effect pattern ↔
      LivePair other now effect pattern) :
    Policy.decide appEnabled rules rawUri now = Policy.decide appEnabled other rawUri now := by
  have hits : ∀ effect path, Hits rules now effect path ↔ Hits other now effect path := by
    intro effect path
    unfold Hits
    simp only [same]
  have onPath : ∀ path, decidePath rules path now = decidePath other path now := by
    intro path
    classical
    rw [decidePath_eq, decidePath_eq]
    exact if_congr (hits _ _) rfl (if_congr (hits _ _) rfl rfl)
  unfold Policy.decide
  simp only [onPath]

/-! ### One rule more -/

theorem livePair_insert {before after : List Rule} {effect : Effect} {pattern : Str} :
    LivePair (before ++ rule :: after) now effect pattern ↔
      (live now rule = true ∧ rule.effect = effect ∧ rule.pathPattern = pattern) ∨
        LivePair (before ++ after) now effect pattern := by
  unfold LivePair
  simp only [List.mem_append, List.mem_cons]
  constructor
  · rintro ⟨found, inFront | rfl | behind, pair⟩
    · exact Or.inr ⟨found, Or.inl inFront, pair⟩
    · exact Or.inl pair
    · exact Or.inr ⟨found, Or.inr behind, pair⟩
  · rintro (pair | ⟨found, inFront | behind, pair⟩)
    · exact ⟨rule, Or.inr (Or.inl rfl), pair⟩
    · exact ⟨found, Or.inl inFront, pair⟩
    · exact ⟨found, Or.inr (Or.inr behind), pair⟩

theorem Hits.insert {before after : List Rule} {effect : Effect}
    (hit : Hits (before ++ after) now effect path) :
    Hits (before ++ rule :: after) now effect path := by
  obtain ⟨pattern, pair, matched⟩ := hit
  exact ⟨pattern, livePair_insert.mpr (Or.inr pair), matched⟩

/-- A rule of the other effect does not come in. -/
theorem hits_insert_of_ne {before after : List Rule} {effect : Effect}
    (differs : rule.effect ≠ effect) :
    Hits (before ++ rule :: after) now effect path ↔ Hits (before ++ after) now effect path := by
  refine ⟨fun ⟨pattern, pair, matched⟩ => ⟨pattern, ?_, matched⟩, Hits.insert⟩
  exact (livePair_insert.mp pair).resolve_left fun own => differs own.2.1

/-- **One deny more** allows nothing more. -/
theorem decide_insert_deny {before after : List Rule} (denies : rule.effect = .deny)
    (allowed : Policy.decide appEnabled (before ++ rule :: after) rawUri now = .allow) :
    Policy.decide appEnabled (before ++ after) rawUri now = .allow := by
  obtain ⟨enabled, paths, read, all⟩ := decide_eq_allow.mp allowed
  refine decide_eq_allow.mpr ⟨enabled, paths, read, fun path member => ?_⟩
  obtain ⟨notDenied, hit⟩ := decidePath_eq_allow_iff.mp (all path member)
  refine decidePath_eq_allow_iff.mpr ⟨fun denied => notDenied denied.insert, ?_⟩
  refine (hits_insert_of_ne ?_).mp hit
  rw [denies]
  exact Effect.noConfusion

/-- **One allow more** refuses nothing more. -/
theorem decide_insert_allow {before after : List Rule} (allows : rule.effect = .allow)
    (allowed : Policy.decide appEnabled (before ++ after) rawUri now = .allow) :
    Policy.decide appEnabled (before ++ rule :: after) rawUri now = .allow := by
  obtain ⟨enabled, paths, read, all⟩ := decide_eq_allow.mp allowed
  refine decide_eq_allow.mpr ⟨enabled, paths, read, fun path member => ?_⟩
  obtain ⟨notDenied, hit⟩ := decidePath_eq_allow_iff.mp (all path member)
  refine decidePath_eq_allow_iff.mpr ⟨fun denied => notDenied ?_, hit.insert⟩
  refine (hits_insert_of_ne ?_).mp denied
  rw [allows]
  exact Effect.noConfusion

/-- **Where a refusal turns into an allow**, there is an allow more or a deny less, live and
matching. -/
theorem decide_opens (refused : Policy.decide true rules rawUri now ≠ .allow)
    (allowed : Policy.decide true other rawUri now = .allow) :
    ∃ paths, readings rawUri = .ok paths ∧ ∃ path ∈ paths,
      (∃ rule ∈ other, rule ∉ rules ∧ live now rule = true ∧ rule.effect = .allow ∧
        matchesPattern rule.pathPattern path = true) ∨
      ∃ rule ∈ rules, rule ∉ other ∧ live now rule = true ∧ rule.effect = .deny ∧
        matchesPattern rule.pathPattern path = true := by
  obtain ⟨_, paths, read, all⟩ := decide_eq_allow.mp allowed
  have some : ∃ path ∈ paths, decidePath rules path now ≠ .allow := by
    by_contra none
    refine refused (decide_eq_allow.mpr ⟨rfl, paths, read, fun path member => ?_⟩)
    by_contra differs
    exact none ⟨path, member, differs⟩
  obtain ⟨path, member, differs⟩ := some
  obtain ⟨notDenied, allow⟩ := decidePath_eq_allow_iff.mp (all path member)
  obtain ⟨grant, granted, current, kind, matched⟩ := hits_iff.mp allow
  refine ⟨paths, read, path, member, ?_⟩
  by_cases already : grant ∈ rules
  · have denied : Hits rules now .deny path := by
      by_contra free
      exact differs (decidePath_eq_allow_iff.mpr
        ⟨free, hits_iff.mpr ⟨grant, already, current, kind, matched⟩⟩)
    obtain ⟨rule, inside, lives, denies, hit⟩ := hits_iff.mp denied
    refine Or.inr ⟨rule, inside, fun stays => ?_, lives, denies, hit⟩
    exact notDenied (hits_iff.mpr ⟨rule, stays, lives, denies, hit⟩)
  · exact Or.inl ⟨grant, granted, already, current, kind, matched⟩

/-! ### The rule set -/

theorem livePair_of_mem_iff (same : ∀ rule, rule ∈ rules ↔ rule ∈ other) (effect : Effect)
    (pattern : Str) : LivePair rules now effect pattern ↔ LivePair other now effect pattern := by
  unfold LivePair
  simp only [same]

theorem not_live_of_expired {expires : DateTime} (dated : rule.expiresAt = some expires)
    (past : expires ≤ now) : live now rule = false := by
  unfold live
  rw [dated]
  exact decide_eq_false (not_lt.mpr past)

/-- **The semantics of a rule list.** Only the set of live pairs counts, so neither the order nor a
repetition nor an expired rule does; a deny more never allows, an allow more never refuses and never
touches the three refusals that are not for want of a grant; and an explicit deny is a live deny on
one of the readings. -/
theorem decide_ruleSet (appEnabled : Bool) (rawUri : Str) (now : DateTime) :
    (∀ rules other : List Rule,
      (∀ effect pattern, LivePair rules now effect pattern ↔ LivePair other now effect pattern) →
        Policy.decide appEnabled rules rawUri now = Policy.decide appEnabled other rawUri now) ∧
    (∀ rules other : List Rule, rules.Perm other →
      Policy.decide appEnabled rules rawUri now = Policy.decide appEnabled other rawUri now) ∧
    (∀ (before after : List Rule) (rule : Rule),
      (rule ∈ before ++ after ∨ (∃ expires, rule.expiresAt = some expires ∧ expires ≤ now) →
        Policy.decide appEnabled (before ++ rule :: after) rawUri now =
          Policy.decide appEnabled (before ++ after) rawUri now) ∧
      (rule.effect = .deny → Policy.decide appEnabled (before ++ after) rawUri now ≠ .allow →
        Policy.decide appEnabled (before ++ rule :: after) rawUri now ≠ .allow) ∧
      (rule.effect = .allow → ∀ decision ∈ [.allow, .deny .explicitDeny, .deny .malformedUri,
          .deny .applicationDisabled],
        Policy.decide appEnabled (before ++ after) rawUri now = decision →
          Policy.decide appEnabled (before ++ rule :: after) rawUri now = decision)) ∧
    ∀ rules : List Rule, Policy.decide appEnabled rules rawUri now = .deny .explicitDeny ↔
      appEnabled = true ∧ ∃ first second third, readings rawUri = .ok [first, second, third] ∧
        ∃ rule ∈ rules, live now rule = true ∧ rule.effect = .deny ∧
          ∃ path ∈ [first, second, third], matchesPattern rule.pathPattern path = true := by
  refine ⟨fun _ _ same => decide_of_sameLive same, fun _ _ permuted => ?_, ?_, fun rules => ?_⟩
  · exact decide_of_sameLive (livePair_of_mem_iff fun rule => permuted.mem_iff)
  · intro before after rule
    refine ⟨?_, fun denies refused allowed => refused (decide_insert_deny denies allowed), ?_⟩
    · rintro (member | ⟨expires, dated, past⟩)
      · refine decide_of_sameLive (livePair_of_mem_iff fun other => ?_)
        rw [List.perm_middle.mem_iff, List.mem_cons]
        exact or_iff_right_of_imp fun same => same ▸ member
      · refine decide_of_sameLive fun effect pattern => livePair_insert.trans ?_
        refine or_iff_right fun own => ?_
        rw [not_live_of_expired dated past] at own
        cases own.1
    · intro allows decision member
      simp only [List.mem_cons, List.not_mem_nil, or_false] at member
      rcases member with rfl | rfl | rfl | rfl
      · exact decide_insert_allow allows
      · rw [decide_eq_explicitDeny_iff, decide_eq_explicitDeny_iff]
        rintro ⟨enabled, paths, read, path, member, hit⟩
        exact ⟨enabled, paths, read, path, member, hit.insert⟩
      · rw [decide_eq_malformedUri_iff, decide_eq_malformedUri_iff]
        exact id
      · rw [decide_eq_applicationDisabled_iff, decide_eq_applicationDisabled_iff]
        exact id
  · rw [decide_eq_explicitDeny_iff]
    refine and_congr_right fun _ => ⟨?_, ?_⟩
    · rintro ⟨paths, read, path, member, hit⟩
      obtain ⟨first, second, third, rfl⟩ := readings_three read
      obtain ⟨rule, inside, current, denies, matched⟩ := hits_iff.mp hit
      exact ⟨first, second, third, read, rule, inside, current, denies, path, member, matched⟩
    · rintro ⟨first, second, third, read, rule, inside, current, denies, path, member, matched⟩
      exact ⟨_, read, path, member, hits_iff.mpr ⟨rule, inside, current, denies, matched⟩⟩

end OpenBerat.Policy
