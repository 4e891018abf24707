/-
**Regular patterns and the languages they stand for.**

Patterns over letters, a letter being given by the class it is in. A pattern that a whole text has
to match is its language.

* `mem_plus`: a nonempty text of one class.
* `mem_labels`: labels of one class joined by single separators, which is what splitting at the
  separators leaves.
-/

import Mathlib.Computability.Language
import Mathlib.Tactic.Common

namespace OpenBerat.Lib

open Computability

/-- Patterns over the letters `α`. -/
inductive Regular (α : Type)
  | empty
  | set (admits : α → Bool)
  | seq (first second : Regular α)
  | opt (inner : Regular α)
  | star (inner : Regular α)

namespace Regular

variable {α : Type}

/-- The texts a pattern matches as a whole. -/
def language : Regular α → Language α
  | .empty => 1
  | .set admits => {text | ∃ letter, admits letter = true ∧ text = [letter]}
  | .seq first second => language first * language second
  | .opt inner => language inner + 1
  | .star inner => (language inner)∗

/-- One or more times. -/
def plus (inner : Regular α) : Regular α :=
  .seq inner (.star inner)

/-- A text as it is written. -/
def literal [DecidableEq α] : List α → Regular α
  | [] => .empty
  | letter :: text => .seq (.set (· = letter)) (literal text)

/-- One or more letters, and as many times a separator with one or more letters behind it. -/
def labels (letters separators : α → Bool) : Regular α :=
  .seq (plus (.set letters)) (.star (.seq (.set separators) (plus (.set letters))))

theorem mem_set {admits : α → Bool} {text : List α} :
    text ∈ (Regular.set admits).language ↔ ∃ letter, admits letter = true ∧ text = [letter] :=
  Iff.rfl

theorem mem_seq {first second : Regular α} {text : List α} :
    text ∈ (Regular.seq first second).language ↔
      ∃ front ∈ first.language, ∃ back ∈ second.language, front ++ back = text :=
  Language.mem_mul

theorem mem_star {inner : Regular α} {text : List α} :
    text ∈ (Regular.star inner).language ↔
      ∃ parts : List (List α), text = parts.flatten ∧ ∀ part ∈ parts, part ∈ inner.language :=
  Language.mem_kstar

/-- Any number of letters of one class. -/
theorem mem_star_set {admits : α → Bool} {text : List α} :
    text ∈ (Regular.star (.set admits)).language ↔ ∀ letter ∈ text, admits letter = true := by
  rw [mem_star]
  constructor
  · rintro ⟨parts, rfl, all⟩ letter member
    obtain ⟨part, listed, inside⟩ := List.mem_flatten.mp member
    obtain ⟨other, admitted, rfl⟩ := mem_set.mp (all part listed)
    rw [List.mem_singleton.mp inside]
    exact admitted
  · intro all
    refine ⟨text.map fun letter => [letter], ?_, fun part listed => ?_⟩
    · rw [← List.flatMap_def]
      exact (List.flatMap_singleton' text).symm
    · obtain ⟨letter, member, rfl⟩ := List.mem_map.mp listed
      exact ⟨letter, all letter member, rfl⟩

/-- **A nonempty text of one class.** -/
theorem mem_plus {admits : α → Bool} {text : List α} :
    text ∈ (plus (.set admits)).language ↔
      text ≠ [] ∧ ∀ letter ∈ text, admits letter = true := by
  unfold plus
  rw [mem_seq]
  constructor
  · rintro ⟨_, ⟨letter, admitted, rfl⟩, back, behind, rfl⟩
    refine ⟨List.cons_ne_nil _ _, fun other member => ?_⟩
    rcases List.mem_cons.mp member with rfl | later
    · exact admitted
    · exact mem_star_set.mp behind other later
  · rintro ⟨some, all⟩
    obtain ⟨letter, rest, rfl⟩ := List.exists_cons_of_ne_nil some
    exact ⟨[letter], ⟨letter, all letter List.mem_cons_self, rfl⟩, rest,
      mem_star_set.mpr fun other member => all other (List.mem_cons_of_mem _ member), rfl⟩

theorem mem_literal_seq [DecidableEq α] {text whole : List α} {next : Regular α} :
    whole ∈ (Regular.seq (literal text) next).language ↔
      ∃ rest ∈ next.language, whole = text ++ rest := by
  induction text generalizing whole with
  | nil =>
    rw [mem_seq]
    constructor
    · rintro ⟨front, empty, back, behind, rfl⟩
      obtain rfl := (Language.mem_one front).mp empty
      exact ⟨back, behind, rfl⟩
    · rintro ⟨rest, behind, same⟩
      exact ⟨[], (Language.mem_one _).mpr rfl, rest, behind, same.symm⟩
  | cons letter text ih =>
    constructor
    · intro matched
      obtain ⟨front, inside, back, behind, rfl⟩ := mem_seq.mp matched
      obtain ⟨_, ⟨other, same, rfl⟩, tail, found, rfl⟩ := mem_seq.mp inside
      obtain rfl : other = letter := of_decide_eq_true same
      obtain ⟨rest, last, shape⟩ := ih.mp (mem_seq.mpr ⟨tail, found, back, behind, rfl⟩)
      exact ⟨rest, last, congrArg (other :: ·) shape⟩
    · rintro ⟨rest, last, rfl⟩
      obtain ⟨tail, found, back, behind, shape⟩ := mem_seq.mp (ih.mpr ⟨rest, last, rfl⟩)
      refine mem_seq.mpr ⟨letter :: tail, mem_seq.mpr ⟨[letter], ⟨letter, decide_eq_true rfl, rfl⟩,
        tail, found, rfl⟩, back, behind, ?_⟩
      rw [List.cons_append, shape]
      rfl

theorem exists_first {test : α → Bool} {text : List α}
    (some : ¬ ∀ letter ∈ text, test letter = false) :
    ∃ front letter rest, text = front ++ letter :: rest ∧ (∀ other ∈ front, test other = false) ∧
      test letter = true := by
  induction text with
  | nil => exact absurd (fun _ member => nomatch member) some
  | cons head text ih =>
    by_cases here : test head = true
    · exact ⟨[], head, text, rfl, fun _ member => (nomatch member), here⟩
    · rw [List.forall_mem_cons, not_and] at some
      obtain ⟨front, letter, rest, rfl, free, passes⟩ := ih (some (Bool.eq_false_iff.mpr here))
      exact ⟨head :: front, letter, rest, rfl,
        List.forall_mem_cons.mpr ⟨Bool.eq_false_iff.mpr here, free⟩, passes⟩

/-- **Labels joined by single separators**: every piece between separators is a label. -/
theorem mem_labels {letters separators : α → Bool}
    (apart : ∀ letter, letters letter = true → separators letter = false) {text : List α} :
    text ∈ (labels letters separators).language ↔
      ∀ piece ∈ text.splitOnP separators, piece ≠ [] ∧ ∀ letter ∈ piece, letters letter = true := by
  have alone : ∀ {label : List α}, (∀ letter ∈ label, letters letter = true) →
      ∀ letter ∈ label, separators letter = false :=
    fun all letter member => apart letter (all letter member)
  constructor
  · intro matched
    obtain ⟨first, here, back, behind, rfl⟩ := mem_seq.mp matched
    obtain ⟨parts, rfl, all⟩ := mem_star.mp behind
    clear matched behind
    have front := mem_plus.mp here
    clear here
    induction parts generalizing first with
    | nil =>
      rw [List.flatten_nil, List.append_nil, List.splitOnP_eq_singleton (alone front.2)]
      exact List.forall_mem_singleton.mpr front
    | cons part parts ih =>
      obtain ⟨_, ⟨sep, separates, rfl⟩, label, later, rfl⟩ :=
        mem_seq.mp (all part List.mem_cons_self)
      rw [List.flatten_cons, List.append_assoc, List.singleton_append,
        List.splitOnP_append_cons_of_forall_mem (alone front.2) sep separates, List.forall_mem_cons]
      exact ⟨front, ih label (fun part listed => all part (List.mem_cons_of_mem _ listed))
        (mem_plus.mp later)⟩
  · generalize split : text.splitOnP separators = pieces
    intro all
    induction pieces generalizing text with
    | nil => exact absurd split (List.splitOnP_ne_nil separators text)
    | cons piece pieces ih =>
      rw [List.forall_mem_cons] at all
      obtain ⟨here, later⟩ := all
      by_cases single : ∀ letter ∈ text, separators letter = false
      · rw [List.splitOnP_eq_singleton single] at split
        obtain ⟨rfl, _⟩ := List.cons.inj split
        exact mem_seq.mpr ⟨text, mem_plus.mpr here, [], Language.nil_mem_kstar _, List.append_nil _⟩
      · obtain ⟨front, sep, rest, rfl, free, separates⟩ := exists_first single
        rw [List.splitOnP_append_cons_of_forall_mem free sep separates] at split
        obtain ⟨rfl, same⟩ := List.cons.inj split
        obtain ⟨label, found, back, behind, rfl⟩ := mem_seq.mp (ih same later)
        obtain ⟨parts, rfl, listed⟩ := mem_star.mp behind
        refine mem_seq.mpr ⟨front, mem_plus.mpr here, (sep :: label) ++ parts.flatten,
          mem_star.mpr ⟨(sep :: label) :: parts, rfl, ?_⟩, rfl⟩
        exact List.forall_mem_cons.mpr
          ⟨mem_seq.mpr ⟨[sep], ⟨sep, separates, rfl⟩, label, found, rfl⟩, listed⟩

end Regular

end OpenBerat.Lib
