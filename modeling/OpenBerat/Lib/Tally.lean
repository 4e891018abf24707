/-
**Adding up over an association list.**

`total f map` concatenates `f key value` over the entries of an association list. Erasing, inserting
and replacing an entry change the total by that entry's share, up to order.
-/

import Mathlib.Data.List.AList
import Mathlib.Data.List.Perm.Basic
import Mathlib.Tactic.Common

set_option linter.unusedSectionVars false

namespace OpenBerat.Lib

variable {α β τ : Type} [DecidableEq α]

/-- A map as an association list without duplicate keys. -/
abbrev Assoc (α β : Type) := AList fun _ : α => β

/-- The concatenated shares of all entries. -/
def total (f : α → β → List τ) (map : Assoc α β) : List τ :=
  map.entries.flatMap fun entry => f entry.1 entry.2

/-- An entry can be taken out in front. -/
theorem entries_perm_erase {map : Assoc α β} {key : α} {value : β}
    (found : map.lookup key = some value) :
    map.entries.Perm (⟨key, value⟩ :: (map.erase key).entries) := by
  have member : key ∈ map.entries.keys := by
    have inside : key ∈ map := by
      rw [← AList.lookup_isSome, found]
      rfl
    exact inside
  obtain ⟨other, before, after, _, shape, erased⟩ := List.exists_of_kerase member
  have same : other = value := by
    have present : (⟨key, other⟩ : Sigma fun _ : α => β) ∈ map.entries := by
      rw [shape]
      exact List.mem_append_right _ List.mem_cons_self
    have looked := AList.mem_lookup_iff.mpr present
    rw [found] at looked
    exact (Option.some.inj looked).symm
  subst same
  show map.entries.Perm (⟨key, other⟩ :: map.entries.kerase key)
  rw [erased, shape]
  exact List.perm_middle

/-- The share of a found entry and the rest. -/
theorem total_erase (f : α → β → List τ) {map : Assoc α β} {key : α} {value : β}
    (found : map.lookup key = some value) :
    (total f map).Perm (f key value ++ total f (map.erase key)) :=
  (entries_perm_erase found).flatMap_right _

theorem total_insert (f : α → β → List τ) (map : Assoc α β) (key : α) (value : β) :
    total f (map.insert key value) = f key value ++ total f (map.erase key) := by
  unfold total
  rw [AList.entries_insert]
  rfl

theorem erase_of_absent {map : Assoc α β} {key : α} (absent : map.lookup key = none) :
    map.erase key = map := by
  refine AList.ext ?_
  show map.entries.kerase key = map.entries
  refine List.kerase_of_notMem_keys fun member => ?_
  have inside : key ∈ map := member
  rw [← AList.lookup_isSome, absent] at inside
  cases inside

/-- The total depends on the shares of present entries only. -/
theorem total_congr {f g : α → β → List τ} {map : Assoc α β}
    (same : ∀ key value, map.lookup key = some value → f key value = g key value) :
    total f map = total g map := by
  unfold total
  refine List.flatMap_congr fun entry member => ?_
  obtain ⟨key, value⟩ := entry
  exact same key value (AList.mem_lookup_iff.mpr member)

theorem total_of_absent (f : α → β → List τ) {map : Assoc α β}
    (absent : ∀ key, map.lookup key = none) : total f map = [] := by
  refine List.flatMap_eq_nil_iff.mpr fun entry member => ?_
  have found := AList.mem_lookup_iff.mpr member
  rw [absent] at found
  cases found

theorem lookup_erase_eq_some {map : Assoc α β} {key other : α} {value : β} :
    (map.erase key).lookup other = some value ↔ other ≠ key ∧ map.lookup other = some value := by
  by_cases same : other = key
  · subst same
    rw [AList.lookup_erase]
    exact iff_of_false (fun found => by cases found) (fun both => both.1 rfl)
  · rw [AList.lookup_erase_ne same]
    exact (and_iff_right same).symm

theorem lookup_insert_eq_some {map : Assoc α β} {key other : α} {value new : β} :
    (map.insert key new).lookup other = some value ↔
      (other = key ∧ new = value) ∨ (other ≠ key ∧ map.lookup other = some value) := by
  by_cases same : other = key
  · subst same
    rw [AList.lookup_insert, Option.some.injEq]
    simp
  · rw [AList.lookup_insert_ne same]
    simp [same]

end OpenBerat.Lib
