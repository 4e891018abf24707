/-
**Numbers written in a fixed width.**

Every digit has a letter, the most significant one first, and leading zeros are written out. Where
the letters are in the order of their digits, the texts are in the order of the numbers.

* `append_lt_append`: texts that begin with as many letters.
* `padded_lt_padded`: the order of the texts.
-/

import Mathlib.Algebra.Order.Group.Nat
import Mathlib.Data.Set.Function
import Mathlib.Order.Interval.Set.Defs
import Mathlib.Order.Monotone.Basic

namespace OpenBerat.Lib

section Texts

variable {α : Type} [LT α]

theorem append_lt_append {first second rest other : List α} (same : first.length = second.length) :
    first ++ rest < second ++ other ↔ first < second ∨ first = second ∧ rest < other := by
  induction first generalizing second with
  | nil =>
    obtain rfl := List.length_eq_zero_iff.mp same.symm
    exact ⟨fun less => Or.inr ⟨rfl, less⟩,
      fun either => either.elim (fun less => absurd less (List.not_lt_nil _)) And.right⟩
  | cons letter first ih =>
    cases second with
    | nil => cases same
    | cons next second =>
      have same : first.length = second.length := Nat.succ.inj same
      rw [List.cons_append, List.cons_append, List.cons_lt_cons_iff, List.cons_lt_cons_iff, ih same,
        List.cons.injEq, and_or_left, or_assoc, and_assoc]

end Texts

section Padded

variable {α : Type} (base : Nat) (letter : Nat → α)

/-- The last `width` digits of a number. -/
def padded : Nat → Nat → List α
  | 0, _ => []
  | width + 1, number => letter (number / base ^ width % base) :: padded width number

variable {base letter}

theorem length_padded (width number : Nat) : (padded base letter width number).length = width := by
  induction width with
  | zero => rfl
  | succ width ih => exact congrArg Nat.succ ih

theorem mem_padded {width number : Nat} {found : α} (some : 0 < base)
    (member : found ∈ padded base letter width number) : ∃ digit < base, found = letter digit := by
  induction width with
  | zero => cases member
  | succ width ih =>
    rcases List.mem_cons.mp member with rfl | later
    · exact ⟨_, Nat.mod_lt _ some, rfl⟩
    · exact ih later

/-- The order of two numbers by their first digits and by what is behind. -/
theorem lt_of_digits {unit high low high' low' : Nat} (below : low < unit) (below' : low' < unit) :
    low + unit * high < low' + unit * high' ↔ high < high' ∨ high = high' ∧ low < low' := by
  constructor
  · intro less
    rcases Nat.lt_trichotomy high high' with lower | rfl | higher
    · exact Or.inl lower
    · exact Or.inr ⟨rfl, Nat.lt_of_add_lt_add_right less⟩
    · have step : unit * (high' + 1) ≤ unit * high := Nat.mul_le_mul_left unit higher
      rw [Nat.mul_succ] at step
      omega
  · rintro (lower | ⟨rfl, less⟩)
    · have step : unit * (high + 1) ≤ unit * high' := Nat.mul_le_mul_left unit lower
      rw [Nat.mul_succ] at step
      omega
    · exact Nat.add_lt_add_right less _

/-- **The order of the texts** is that of the numbers. -/
theorem padded_lt_padded [Preorder α] (ordered : StrictMonoOn letter (Set.Iio base))
    (some : 0 < base) (width number other : Nat) :
    padded base letter width number < padded base letter width other ↔
      number % base ^ width < other % base ^ width := by
  induction width with
  | zero =>
    rw [pow_zero, Nat.mod_one, Nat.mod_one]
    exact iff_of_false (List.not_lt_nil _) (lt_irrefl 0)
  | succ width ih =>
    have inside : ∀ digits, digits % base ∈ Set.Iio base := fun digits => Nat.mod_lt digits some
    have unit : 0 < base ^ width := Nat.pow_pos some
    rw [padded, padded, List.cons_lt_cons_iff, ordered.lt_iff_lt (inside _) (inside _),
      ordered.injOn.eq_iff (inside _) (inside _), ih, Nat.mod_pow_succ, Nat.mod_pow_succ,
      lt_of_digits (Nat.mod_lt _ unit) (Nat.mod_lt _ unit)]

/-- Of numbers that fit. -/
theorem padded_lt_padded_of_lt [Preorder α] (ordered : StrictMonoOn letter (Set.Iio base))
    (some : 0 < base) {width number other : Nat} (fits : number < base ^ width)
    (fits' : other < base ^ width) :
    padded base letter width number < padded base letter width other ↔ number < other := by
  rw [padded_lt_padded ordered some, Nat.mod_eq_of_lt fits, Nat.mod_eq_of_lt fits']

/-- Texts that are the same are of one number. -/
theorem padded_inj [Preorder α] (ordered : StrictMonoOn letter (Set.Iio base)) (some : 0 < base)
    {width number other : Nat} (fits : number < base ^ width) (fits' : other < base ^ width) :
    padded base letter width number = padded base letter width other ↔ number = other := by
  refine ⟨fun same => ?_, fun same => by rw [same]⟩
  have less := padded_lt_padded_of_lt ordered some fits fits'
  have more := padded_lt_padded_of_lt ordered some fits' fits
  rw [same] at less more
  exact Nat.le_antisymm (not_lt.mp fun lower => List.lt_irrefl _ (more.mpr lower))
    (not_lt.mp fun higher => List.lt_irrefl _ (less.mpr higher))

end Padded

end OpenBerat.Lib
