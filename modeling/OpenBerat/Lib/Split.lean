/-
**Splitting at a separator.**

A list is split at a separator (`List.splitOn`) into pieces free of it. `rooted sep pieces` writes
the pieces back with one separator in front of each; a list that starts with the separator is the
rooted form of its tail pieces.

* `rooted_splitOn`, `splitOn_rooted`: the two directions of that correspondence.
* `rooted_boundary_iff`: one rooted list is an initial part of another *at a piece boundary* exactly
  when its pieces are an initial part of the other's pieces.
* `takeWhile_prefix_iff`: a list of elements that all satisfy a test is an initial part of another
  exactly when it is an initial part of the leading elements of the other that satisfy it.
-/

import Mathlib.Data.List.Basic
import Mathlib.Data.List.Infix
import Mathlib.Tactic.Common

namespace OpenBerat.Lib

variable {α : Type}

/-- Every piece of a split is free of the separator. -/
theorem not_mem_of_mem_splitOn [DecidableEq α] {sep : α} {list piece : List α}
    (member : piece ∈ list.splitOn sep) : sep ∉ piece := by
  induction list generalizing piece with
  | nil =>
    rw [List.splitOn_nil, List.mem_singleton] at member
    subst member
    exact List.not_mem_nil
  | cons head tail ih =>
    rw [List.splitOn_cons_eq_if_modifyHead] at member
    by_cases here : head = sep
    · rw [if_pos (beq_iff_eq.mpr here)] at member
      rcases List.mem_cons.mp member with rfl | member
      · exact List.not_mem_nil
      · exact ih member
    · rw [if_neg (fun same => here (beq_iff_eq.mp same))] at member
      obtain ⟨first, rest, shape⟩ := List.exists_cons_of_ne_nil (List.splitOn_ne_nil sep tail)
      rw [shape, List.modifyHead_cons] at member
      rcases List.mem_cons.mp member with rfl | member
      · have free := ih (shape ▸ List.mem_cons_self)
        rw [List.mem_cons, not_or]
        exact ⟨fun same => here same.symm, free⟩
      · exact ih (shape ▸ List.mem_cons_of_mem _ member)

/-- Splitting commutes with a map that makes no separator and loses none. -/
theorem splitOn_map [DecidableEq α] {sep : α} {change : α → α}
    (fixes : ∀ element, change element = sep ↔ element = sep) (list : List α) :
    (list.map change).splitOn sep = (list.splitOn sep).map (List.map change) := by
  induction list with
  | nil => rfl
  | cons head tail ih =>
    rw [List.map_cons, List.splitOn_cons_eq_if_modifyHead, List.splitOn_cons_eq_if_modifyHead, ih]
    by_cases here : head = sep
    · rw [if_pos (beq_iff_eq.mpr here), if_pos (beq_iff_eq.mpr ((fixes head).mpr here))]
      rfl
    · rw [if_neg fun same => here (beq_iff_eq.mp same),
        if_neg fun same => here ((fixes head).mp (beq_iff_eq.mp same))]
      obtain ⟨first, rest, shape⟩ := List.exists_cons_of_ne_nil (List.splitOn_ne_nil sep tail)
      rw [shape]
      rfl

/-- Pieces written back to back, each behind one separator. -/
def rooted (sep : α) (pieces : List (List α)) : List α :=
  pieces.flatMap (sep :: ·)

@[simp] theorem rooted_nil (sep : α) : rooted sep [] = [] := rfl

@[simp] theorem rooted_cons (sep : α) (piece : List α) (pieces : List (List α)) :
    rooted sep (piece :: pieces) = sep :: (piece ++ rooted sep pieces) := rfl

@[simp] theorem rooted_append (sep : α) (first second : List (List α)) :
    rooted sep (first ++ second) = rooted sep first ++ rooted sep second := by
  simp [rooted]

/-- A nonempty rooted list is the separator and the joined pieces. -/
theorem rooted_eq_intercalate (sep : α) {pieces : List (List α)} (some : pieces ≠ []) :
    rooted sep pieces = sep :: [sep].intercalate pieces := by
  induction pieces with
  | nil => exact absurd rfl some
  | cons piece pieces ih =>
    by_cases last : pieces = []
    · subst last
      simp
    · rw [rooted_cons, ih last, List.intercalate_cons_of_ne_nil last]
      simp

/-- A list that starts with the separator is the rooted form of its pieces. -/
theorem rooted_splitOn [DecidableEq α] (sep : α) (list : List α) :
    rooted sep (list.splitOn sep) = sep :: list := by
  rw [rooted_eq_intercalate sep (List.splitOn_ne_nil sep list), List.intercalate_splitOn]

theorem splitOn_cons_self [DecidableEq α] (sep : α) (list : List α) :
    (sep :: list).splitOn sep = [] :: list.splitOn sep := by
  rw [List.splitOn_cons_eq_if_modifyHead, if_pos (beq_self_eq_true sep)]

/-- A rooted list of separator-free pieces splits into exactly these pieces. -/
theorem splitOn_rooted [DecidableEq α] {sep : α} {pieces : List (List α)}
    (free : ∀ piece ∈ pieces, sep ∉ piece) :
    (rooted sep pieces).splitOn sep = [] :: pieces := by
  by_cases some : pieces = []
  · subst some
    exact List.splitOn_nil sep
  · rw [rooted_eq_intercalate sep some, splitOn_cons_self, List.splitOn_intercalate sep free some]

/-- A rest that is empty or goes on with the separator: the cut is at a piece boundary. -/
def AtBoundary (sep : α) (rest : List α) : Prop :=
  rest = [] ∨ rest.head? = some sep

theorem rooted_atBoundary (sep : α) (pieces : List (List α)) :
    AtBoundary sep (rooted sep pieces) := by
  cases pieces with
  | nil => exact Or.inl rfl
  | cons piece pieces => exact Or.inr rfl

/-- Two separator-free pieces followed by cuts at a boundary are equal as soon as the lists are. -/
theorem piece_eq_of_boundary {sep : α} {first second restFirst restSecond : List α}
    (freeFirst : sep ∉ first) (freeSecond : sep ∉ second)
    (boundFirst : AtBoundary sep restFirst) (boundSecond : AtBoundary sep restSecond)
    (same : first ++ restFirst = second ++ restSecond) :
    first = second ∧ restFirst = restSecond := by
  have no_overlap : ∀ {short long rest middle : List α}, sep ∉ long → AtBoundary sep rest →
      long = short ++ middle → rest = middle ++ rest.drop middle.length → middle = [] := by
    intro short long rest middle free bound shape cut
    cases middle with
    | nil => rfl
    | cons head middle =>
      exfalso
      rcases bound with rfl | head_eq
      · exact absurd cut (by simp)
      · rw [cut, List.cons_append, List.head?_cons, Option.some.injEq] at head_eq
        subst head_eq
        exact free (shape ▸ List.mem_append_right _ List.mem_cons_self)
  rcases List.append_eq_append_iff.mp same with ⟨middle, shape, tail⟩ | ⟨middle, shape, tail⟩
  · have none := no_overlap freeSecond boundFirst shape (by rw [tail]; simp)
    subst none
    exact ⟨by rw [shape, List.append_nil], by rw [tail, List.nil_append]⟩
  · have none := no_overlap freeFirst boundSecond shape (by rw [tail]; simp)
    subst none
    exact ⟨by rw [shape, List.append_nil], by rw [tail, List.nil_append]⟩

/-- **Initial part at a boundary is initial part of the pieces.** -/
theorem rooted_boundary_iff {sep : α} {pieces whole : List (List α)}
    (free : ∀ piece ∈ pieces, sep ∉ piece) (freeWhole : ∀ piece ∈ whole, sep ∉ piece) :
    (∃ rest, rooted sep whole = rooted sep pieces ++ rest ∧ AtBoundary sep rest) ↔
      pieces <+: whole := by
  induction pieces generalizing whole with
  | nil =>
    exact ⟨fun _ => List.nil_prefix, fun _ => ⟨_, rfl, rooted_atBoundary sep whole⟩⟩
  | cons piece pieces ih =>
    cases whole with
    | nil =>
      refine ⟨fun ⟨rest, shape, _⟩ => ?_, fun inside => ?_⟩
      · exact absurd shape (by simp)
      · exact absurd (List.prefix_nil.mp inside) (by simp)
    | cons head whole =>
      rw [List.cons_prefix_cons, ← ih (fun p member => free p (List.mem_cons_of_mem _ member))
        (fun p member => freeWhole p (List.mem_cons_of_mem _ member))]
      constructor
      · rintro ⟨rest, shape, bound⟩
        rw [rooted_cons, rooted_cons, List.cons_append, List.cons.injEq, List.append_assoc] at shape
        have restBound : AtBoundary sep (rooted sep pieces ++ rest) := by
          cases pieces with
          | nil => exact bound
          | cons _ _ => exact Or.inr rfl
        obtain ⟨heads, tails⟩ := piece_eq_of_boundary (freeWhole head List.mem_cons_self)
          (free piece List.mem_cons_self) (rooted_atBoundary sep whole) restBound shape.2
        exact ⟨heads.symm, rest, tails, bound⟩
      · rintro ⟨rfl, rest, shape, bound⟩
        exact ⟨rest, by rw [rooted_cons, rooted_cons, shape]; simp, bound⟩

/-- An initial part whose elements pass a test is an initial part of the leading elements that
do. -/
theorem takeWhile_prefix_iff {β : Type} {test : β → Bool} {part whole : List β}
    (passes : ∀ element ∈ part, test element = true) :
    part <+: whole ↔ part <+: whole.takeWhile test := by
  constructor
  · rintro ⟨rest, rfl⟩
    rw [List.takeWhile_append_of_pos passes]
    exact List.prefix_append _ _
  · exact fun inside => inside.trans (List.takeWhile_prefix test)

end OpenBerat.Lib
