/-
**A backtracking matcher.**

A pattern is matched against an initial part of a text in one of several ways, listed in the order
in which a backtracking engine tries them: a greedy repetition longest first, a lazy one shortest
first. What a way takes, and which groups it captures, does not depend on what is behind it
(`Takes`).

* `mem_ways`: the listed ways are the ways there are.
* `fullMatch_eq_some`, `isSome_fullMatch`: the first way that reaches the end.
-/

import Mathlib.Data.List.Basic
import Mathlib.Tactic.Common

namespace OpenBerat.Lib

/-- Patterns over the letters `α` with groups named by `γ`; repetitions are of one class of
letters. -/
inductive Regex (α γ : Type)
  | empty
  | one (admits : α → Bool)
  | many (reluctant : Bool) (admits : α → Bool)
  | opt (inner : Regex α γ)
  | seq (first second : Regex α γ)
  | group (name : γ) (inner : Regex α γ)

/-- A match of an initial part: what it takes, what its groups capture, and what is left. -/
structure Way (α γ : Type) where
  taken : List α
  groups : List (γ × List α)
  rest : List α

namespace Regex

variable {α γ : Type}

/-- The initial parts in one class, shortest first. -/
def heads (admits : α → Bool) : List α → List (List α × List α)
  | [] => [([], [])]
  | letter :: text =>
    ([], letter :: text) ::
      if admits letter then (heads admits text).map fun cut => (letter :: cut.1, cut.2) else []

theorem mem_heads {admits : α → Bool} {text taken rest : List α} :
    (taken, rest) ∈ heads admits text ↔
      text = taken ++ rest ∧ ∀ letter ∈ taken, admits letter = true := by
  induction text generalizing taken with
  | nil =>
    rw [heads, List.mem_singleton, Prod.mk.injEq]
    constructor
    · rintro ⟨rfl, rfl⟩
      exact ⟨rfl, fun _ member => nomatch member⟩
    · rintro ⟨same, _⟩
      exact List.append_eq_nil_iff.mp same.symm
  | cons letter text ih =>
    rw [heads, List.mem_cons, Prod.mk.injEq]
    constructor
    · rintro (⟨rfl, rfl⟩ | member)
      · exact ⟨rfl, fun _ member => nomatch member⟩
      · by_cases admitted : admits letter = true
        · rw [if_pos admitted] at member
          obtain ⟨⟨more, behind⟩, inside, same⟩ := List.mem_map.mp member
          obtain ⟨rfl, rfl⟩ := Prod.mk.inj same
          obtain ⟨rfl, all⟩ := ih.mp inside
          refine ⟨rfl, fun other member => ?_⟩
          rcases List.mem_cons.mp member with rfl | member
          · exact admitted
          · exact all other member
        · rw [if_neg admitted] at member
          cases member
    · rintro ⟨same, all⟩
      cases taken with
      | nil => exact Or.inl ⟨rfl, same.symm⟩
      | cons other more =>
        rw [List.cons_append, List.cons.injEq] at same
        obtain ⟨rfl, rfl⟩ := same
        refine Or.inr ?_
        rw [if_pos (all letter List.mem_cons_self)]
        exact List.mem_map.mpr ⟨(more, rest),
          ih.mpr ⟨rfl, fun later member => all later (List.mem_cons_of_mem _ member)⟩, rfl⟩

/-- The ways to match an initial part, in the order of preference. -/
def ways : Regex α γ → List α → List (Way α γ)
  | .empty, text => [⟨[], [], text⟩]
  | .one _, [] => []
  | .one admits, letter :: text => if admits letter then [⟨[letter], [], text⟩] else []
  | .many reluctant admits, text =>
    (if reluctant then heads admits text else (heads admits text).reverse).map fun cut =>
      ⟨cut.1, [], cut.2⟩
  | .opt inner, text => ways inner text ++ [⟨[], [], text⟩]
  | .seq first second, text => (ways first text).flatMap fun way =>
    (ways second way.rest).map fun next =>
      ⟨way.taken ++ next.taken, way.groups ++ next.groups, next.rest⟩
  | .group name inner, text => (ways inner text).map fun way =>
    ⟨way.taken, (name, way.taken) :: way.groups, way.rest⟩

/-- What a pattern can take, with what its groups then capture. -/
def Takes : Regex α γ → List α → List (γ × List α) → Prop
  | .empty, taken, groups => taken = [] ∧ groups = []
  | .one admits, taken, groups => (∃ letter, admits letter = true ∧ taken = [letter]) ∧ groups = []
  | .many _ admits, taken, groups => (∀ letter ∈ taken, admits letter = true) ∧ groups = []
  | .opt inner, taken, groups => Takes inner taken groups ∨ taken = [] ∧ groups = []
  | .seq first second, taken, groups => ∃ front back captured more, taken = front ++ back ∧
    groups = captured ++ more ∧ Takes first front captured ∧ Takes second back more
  | .group name inner, taken, groups => ∃ captured, groups = (name, taken) :: captured ∧
    Takes inner taken captured

/-- **The listed ways are the ways there are.** -/
theorem mem_ways {regex : Regex α γ} {text : List α} {way : Way α γ} :
    way ∈ ways regex text ↔ text = way.taken ++ way.rest ∧ Takes regex way.taken way.groups := by
  obtain ⟨taken, groups, rest⟩ := way
  dsimp only
  induction regex generalizing text taken groups rest with
  | empty =>
    rw [ways, List.mem_singleton, Way.mk.injEq]
    constructor
    · rintro ⟨rfl, rfl, rfl⟩
      exact ⟨rfl, rfl, rfl⟩
    · rintro ⟨rfl, rfl, rfl⟩
      exact ⟨rfl, rfl, rfl⟩
  | one admits =>
    cases text with
    | nil =>
      refine iff_of_false List.not_mem_nil ?_
      rintro ⟨same, ⟨letter, _, rfl⟩, _⟩
      cases same
    | cons letter text =>
      rw [ways]
      by_cases admitted : admits letter = true
      · rw [if_pos admitted, List.mem_singleton, Way.mk.injEq]
        constructor
        · rintro ⟨rfl, rfl, rfl⟩
          exact ⟨rfl, ⟨letter, admitted, rfl⟩, rfl⟩
        · rintro ⟨same, ⟨other, _, rfl⟩, rfl⟩
          rw [List.singleton_append, List.cons.injEq] at same
          obtain ⟨rfl, rfl⟩ := same
          exact ⟨rfl, rfl, rfl⟩
      · rw [if_neg admitted]
        refine iff_of_false List.not_mem_nil ?_
        rintro ⟨same, ⟨other, passes, rfl⟩, _⟩
        rw [List.singleton_append, List.cons.injEq] at same
        exact admitted (same.1 ▸ passes)
  | many reluctant admits =>
    have listed : (taken, rest) ∈
        (if reluctant then heads admits text else (heads admits text).reverse) ↔
        (taken, rest) ∈ heads admits text := by
      cases reluctant with
      | true => exact Iff.rfl
      | false => exact List.mem_reverse
    rw [ways, List.mem_map]
    constructor
    · rintro ⟨⟨front, back⟩, member, same⟩
      obtain ⟨rfl, rfl, rfl⟩ := Way.mk.inj same
      obtain ⟨rfl, all⟩ := mem_heads.mp (listed.mp member)
      exact ⟨rfl, all, rfl⟩
    · rintro ⟨rfl, all, rfl⟩
      exact ⟨(taken, rest), listed.mpr (mem_heads.mpr ⟨rfl, all⟩), rfl⟩
  | opt inner ih =>
    rw [ways, List.mem_append, List.mem_singleton, Way.mk.injEq, ih]
    constructor
    · rintro (⟨rfl, takes⟩ | ⟨rfl, rfl, rfl⟩)
      · exact ⟨rfl, Or.inl takes⟩
      · exact ⟨rfl, Or.inr ⟨rfl, rfl⟩⟩
    · rintro ⟨rfl, takes | ⟨rfl, rfl⟩⟩
      · exact Or.inl ⟨rfl, takes⟩
      · exact Or.inr ⟨rfl, rfl, rfl⟩
  | seq first second ihFirst ihSecond =>
    rw [ways, List.mem_flatMap]
    constructor
    · rintro ⟨⟨front, captured, middle⟩, member, inside⟩
      obtain ⟨⟨back, more, last⟩, found, same⟩ := List.mem_map.mp inside
      obtain ⟨rfl, rfl, rfl⟩ := Way.mk.inj same
      obtain ⟨rfl, takesFirst⟩ := (ihFirst ..).mp member
      obtain ⟨rfl, takesSecond⟩ := (ihSecond ..).mp found
      exact ⟨(List.append_assoc _ _ _).symm, front, back, captured, more, rfl, rfl, takesFirst,
        takesSecond⟩
    · rintro ⟨rfl, front, back, captured, more, rfl, rfl, takesFirst, takesSecond⟩
      refine ⟨⟨front, captured, back ++ rest⟩,
        (ihFirst ..).mpr ⟨List.append_assoc _ _ _, takesFirst⟩,
        List.mem_map.mpr ⟨⟨back, more, rest⟩, (ihSecond ..).mpr ⟨rfl, takesSecond⟩, rfl⟩⟩
  | group name inner ih =>
    rw [ways, List.mem_map]
    constructor
    · rintro ⟨⟨front, captured, back⟩, member, same⟩
      obtain ⟨rfl, rfl, rfl⟩ := Way.mk.inj same
      obtain ⟨rfl, takes⟩ := (ih ..).mp member
      exact ⟨rfl, captured, rfl, takes⟩
    · rintro ⟨rfl, captured, rfl, takes⟩
      exact ⟨⟨taken, captured, rest⟩, (ih ..).mpr ⟨rfl, takes⟩, rfl⟩

/-- A text as it is written. -/
def literal [DecidableEq α] : List α → Regex α γ
  | [] => .empty
  | letter :: text => .seq (.one (· = letter)) (literal text)

theorem takes_literal [DecidableEq α] {text taken : List α} {groups : List (γ × List α)} :
    Takes (literal text) taken groups ↔ taken = text ∧ groups = [] := by
  induction text generalizing taken groups with
  | nil => exact Iff.rfl
  | cons letter text ih =>
    constructor
    · rintro ⟨front, back, captured, more, rfl, rfl, ⟨⟨other, same, rfl⟩, rfl⟩, takes⟩
      obtain ⟨rfl, rfl⟩ := ih.mp takes
      obtain rfl : other = letter := of_decide_eq_true same
      exact ⟨rfl, rfl⟩
    · rintro ⟨rfl, rfl⟩
      exact ⟨[letter], text, [], [], rfl, rfl, ⟨⟨letter, decide_eq_true rfl, rfl⟩, rfl⟩,
        ih.mpr ⟨rfl, rfl⟩⟩

theorem takes_literal_seq [DecidableEq α] {text taken : List α} {next : Regex α γ}
    {groups : List (γ × List α)} :
    Takes (.seq (literal text) next) taken groups ↔
      ∃ rest, taken = text ++ rest ∧ Takes next rest groups := by
  constructor
  · rintro ⟨front, rest, captured, more, rfl, rfl, first, second⟩
    obtain ⟨rfl, rfl⟩ := takes_literal.mp first
    exact ⟨rest, rfl, second⟩
  · rintro ⟨rest, rfl, takes⟩
    exact ⟨text, rest, [], groups, rfl, rfl, takes_literal.mpr ⟨rfl, rfl⟩, takes⟩

/-- The first way whose rest is an end, as the groups it captures. -/
def fullMatch (ends : List α → Bool) (regex : Regex α γ) (text : List α) :
    Option (List (γ × List α)) :=
  ((ways regex text).find? fun way => ends way.rest).map Way.groups

theorem takes_of_fullMatch {ends : List α → Bool} {regex : Regex α γ} {text : List α}
    {groups : List (γ × List α)} (found : fullMatch ends regex text = some groups) :
    ∃ taken rest, text = taken ++ rest ∧ ends rest = true ∧ Takes regex taken groups := by
  obtain ⟨way, first, rfl⟩ := Option.map_eq_some_iff.mp found
  have passes := List.find?_some first
  obtain ⟨same, takes⟩ := mem_ways.mp (List.mem_of_find?_eq_some first)
  exact ⟨way.taken, way.rest, same, passes, takes⟩

theorem isSome_fullMatch {ends : List α → Bool} {regex : Regex α γ} {taken rest : List α}
    {groups : List (γ × List α)} (takes : Takes regex taken groups) (last : ends rest = true) :
    (fullMatch ends regex (taken ++ rest)).isSome = true := by
  unfold fullMatch
  rw [Option.isSome_map, List.find?_isSome]
  exact ⟨⟨taken, groups, rest⟩, mem_ways.mpr ⟨rfl, takes⟩, last⟩

end Regex

end OpenBerat.Lib
