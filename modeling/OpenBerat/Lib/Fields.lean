/-
**Named fields, some of them laid over others.**

A message carries fields, each a name with a value. Names are compared through a fold, such as
letter case; a reader may fold more of them together than the writer does. Lines are laid over the
fields of a message: a name that has a line keeps no field of the message, and a line without a
value adds none either.

* `valuesOf_overlay_of_mem`: under the name of a line there is the value of the line.
* `valuesOf_overlay_of_notMem`: under any other name there is what has been there.
-/

import Mathlib.Data.List.Nodup
import Mathlib.Tactic.Common

namespace OpenBerat.Lib

variable {α β κ μ : Type} [DecidableEq κ] [DecidableEq μ]

/-- The values of a name, in order. -/
def valuesOf (fold : α → κ) (fields : List (α × β)) (key : κ) : List β :=
  (fields.filter fun field => fold field.1 = key).map Prod.snd

/-- Lines over fields. -/
def overlay (fold : α → κ) (lines : List (α × Option β)) (fields : List (α × β)) : List (α × β) :=
  lines.filterMap (fun line => line.2.map (line.1, ·)) ++
    fields.filter fun field => fold field.1 ∉ lines.map fun line => fold line.1

section Overlay

variable {fold : α → κ} {coarse : α → μ} {lines : List (α × Option β)} {fields : List (α × β)}

theorem valuesOf_append (first second : List (α × β)) (key : κ) :
    valuesOf fold (first ++ second) key = valuesOf fold first key ++ valuesOf fold second key := by
  unfold valuesOf
  rw [List.filter_append, List.map_append]

theorem valuesOf_eq_nil {key : κ} (absent : ∀ field ∈ fields, fold field.1 ≠ key) :
    valuesOf fold fields key = [] := by
  unfold valuesOf
  rw [List.filter_eq_nil_iff.mpr fun field member => by simpa using absent field member]
  rfl

/-- The lines alone, each name once. -/
theorem valuesOf_lines {line : α × Option β} (distinct : (lines.map fun line => fold line.1).Nodup)
    (member : line ∈ lines) :
    valuesOf fold (lines.filterMap fun line => line.2.map (line.1, ·)) (fold line.1) =
      line.2.toList := by
  induction lines with
  | nil => cases member
  | cons first lines ih =>
    rw [List.map_cons, List.nodup_cons] at distinct
    have split : (first :: lines).filterMap (fun line => line.2.map (line.1, ·)) =
        (first.2.map (first.1, ·)).toList ++ lines.filterMap fun line =>
          line.2.map (line.1, ·) := by
      rw [List.filterMap_cons]
      cases first.2 with
      | none => rfl
      | some value => rfl
    rw [split, valuesOf_append]
    rcases List.mem_cons.mp member with rfl | later
    · have others :
          valuesOf fold (lines.filterMap fun line => line.2.map (line.1, ·)) (fold line.1) =
              [] := by
        refine valuesOf_eq_nil fun field inside same => distinct.1 ?_
        obtain ⟨other, listed, shown⟩ := List.mem_filterMap.mp inside
        obtain ⟨value, _, rfl⟩ := Option.map_eq_some_iff.mp shown
        exact List.mem_map.mpr ⟨other, listed, same⟩
      rw [others, List.append_nil]
      cases value : line.2 with
      | none => rfl
      | some value => simp [valuesOf]
    · rw [ih distinct.2 later]
      have apart : fold first.1 ≠ fold line.1 := fun same =>
        distinct.1 (List.mem_map.mpr ⟨line, later, same.symm⟩)
      rw [valuesOf_eq_nil, List.nil_append]
      intro field inside same
      obtain ⟨value, _, rfl⟩ := Option.map_eq_some_iff.mp (Option.mem_toList.mp inside)
      exact apart same

/-- **Under the name of a line** there is its value and nothing else, for a reader whose names are
no coarser than the fold on what may be read at all. -/
theorem valuesOf_overlay_of_mem {valid : α → Prop} {line : α × Option β}
    (finer : ∀ first second, valid first → valid second → coarse first = coarse second →
      fold first = fold second)
    (clean : ∀ field ∈ fields, valid field.1) (named : ∀ line ∈ lines, valid line.1)
    (distinct : (lines.map fun line => fold line.1).Nodup) (member : line ∈ lines) :
    valuesOf coarse (overlay fold lines fields) (coarse line.1) = line.2.toList := by
  have apart : (lines.map fun line => coarse line.1).Nodup := by
    refine List.Nodup.map_on (fun first here second there same => ?_) (List.Nodup.of_map _ distinct)
    exact List.inj_on_of_nodup_map distinct here there
      (finer _ _ (named first here) (named second there) same)
  unfold overlay
  rw [valuesOf_append, valuesOf_lines apart member, valuesOf_eq_nil, List.append_nil]
  intro field inside same
  obtain ⟨from', free⟩ := List.mem_filter.mp inside
  refine of_decide_eq_true free (List.mem_map.mpr ⟨line, member, ?_⟩)
  exact (finer _ _ (clean field from') (named line member) same).symm

/-- **Under any other name** there is what has been there. -/
theorem valuesOf_overlay_of_notMem {key : κ} (other : key ∉ lines.map fun line => fold line.1) :
    valuesOf fold (overlay fold lines fields) key = valuesOf fold fields key := by
  unfold overlay
  rw [valuesOf_append, valuesOf_eq_nil, List.nil_append]
  · unfold valuesOf
    rw [List.filter_filter]
    congr 1
    refine List.filter_congr fun field _ => ?_
    by_cases same : fold field.1 = key
    · rw [decide_eq_true same, Bool.true_and, same]
      exact decide_eq_true other
    · rw [decide_eq_false same, Bool.false_and]
  · intro field inside same
    obtain ⟨line, listed, shown⟩ := List.mem_filterMap.mp inside
    obtain ⟨value, _, rfl⟩ := Option.map_eq_some_iff.mp shown
    exact other (List.mem_map.mpr ⟨line, listed, same⟩)

end Overlay

end OpenBerat.Lib
