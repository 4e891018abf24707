/-
**Deny-overrides policies over a tree.**

A place is a list of segments from the root; a grant names the root of a subtree and an effect, and
covers the places below that root. `verdict` is the usual combination: a covering deny refuses, else
a covering allow admits, else nothing does.

* `verdict_eq_admitted`: the verdict in terms of covering grants.
* `admits_everywhere_iff`: for a fixed list of readings of one request and one more reading, *every*
  policy that admits all readings of the list also admits the further one if and only if the
  further one lies above some reading of the list and below some reading of the list. The two halves
  are the two ways out: a deny that meets only the further reading, and allows that meet only
  the readings of the list.
-/

import Mathlib.Data.List.Basic
import Mathlib.Data.List.Infix
import Mathlib.Tactic.Common

namespace OpenBerat.Lib

variable {α : Type} [DecidableEq α]

/-- The three answers of a deny-overrides policy. -/
inductive Verdict
  | admitted
  | refused
  | unmatched
  deriving DecidableEq

/-- A subtree with an effect: `allow = false` is a deny. -/
structure Grant (α : Type) where
  allow : Bool
  root : List α
  deriving DecidableEq

/-- A grant covers the places at and below its root. -/
def Grant.covers (grant : Grant α) (place : List α) : Bool :=
  grant.root.isPrefixOf place

theorem Grant.covers_iff {grant : Grant α} {place : List α} :
    grant.covers place = true ↔ grant.root <+: place :=
  List.isPrefixOf_iff_prefix

/-- Deny over allow over nothing. -/
def verdict (grants : List (Grant α)) (place : List α) : Verdict :=
  if grants.any fun grant => !grant.allow && grant.covers place then .refused
  else if grants.any fun grant => grant.allow && grant.covers place then .admitted
  else .unmatched

/-- Some grant of the given effect covers the place. -/
def Covered (allow : Bool) (grants : List (Grant α)) (place : List α) : Prop :=
  ∃ grant ∈ grants, grant.allow = allow ∧ grant.root <+: place

theorem any_covers_iff (allow : Bool) (grants : List (Grant α)) (place : List α) :
    (grants.any fun grant => (grant.allow == allow) && grant.covers place) = true ↔
      Covered allow grants place := by
  simp only [List.any_eq_true, Bool.and_eq_true, beq_iff_eq, Grant.covers_iff, Covered]

theorem verdict_eq (grants : List (Grant α)) (place : List α) :
    verdict grants place =
      if grants.any fun grant => (grant.allow == false) && grant.covers place then .refused
      else if grants.any fun grant => (grant.allow == true) && grant.covers place then .admitted
      else .unmatched := by
  unfold verdict
  simp

theorem verdict_eq_admitted {grants : List (Grant α)} {place : List α} :
    verdict grants place = .admitted ↔
      ¬ Covered false grants place ∧ Covered true grants place := by
  rw [verdict_eq, ← any_covers_iff, ← any_covers_iff]
  cases denied : grants.any fun grant => (grant.allow == false) && grant.covers place with
  | true =>
    rw [if_pos rfl]
    exact iff_of_false (fun same => by cases same) (fun both => both.1 rfl)
  | false =>
    rw [if_neg Bool.false_ne_true]
    cases allowed : grants.any fun grant => (grant.allow == true) && grant.covers place with
    | true => exact iff_of_true (if_pos rfl) ⟨Bool.false_ne_true, rfl⟩
    | false =>
      rw [if_neg Bool.false_ne_true]
      exact iff_of_false (fun same => by cases same) (fun both => Bool.false_ne_true both.2)

/-! ### When one more reading changes nothing -/

/-- **Above one reading and below one reading.** The further place is an initial part of some
reading, and some reading is an initial part of it. -/
def Sandwiched (readings : List (List α)) (place : List α) : Prop :=
  (∃ reading ∈ readings, place <+: reading) ∧ ∃ reading ∈ readings, reading <+: place

theorem admitted_of_sandwiched {readings : List (List α)} {place : List α}
    (between : Sandwiched readings place) {grants : List (Grant α)}
    (all : ∀ reading ∈ readings, verdict grants reading = .admitted) :
    verdict grants place = .admitted := by
  obtain ⟨⟨below, belowMem, above⟩, top, topMem, under⟩ := between
  rw [verdict_eq_admitted]
  constructor
  · rintro ⟨grant, member, effect, covers⟩
    exact (verdict_eq_admitted.mp (all below belowMem)).1
      ⟨grant, member, effect, covers.trans above⟩
  · obtain ⟨grant, member, effect, covers⟩ := (verdict_eq_admitted.mp (all top topMem)).2
    exact ⟨grant, member, effect, covers.trans under⟩

/-- The policy that admits everything but one subtree. -/
def denyOnly (root : List α) : List (Grant α) :=
  [⟨true, []⟩, ⟨false, root⟩]

/-- The policy that admits the subtrees of the given places and nothing else. -/
def allowEach (places : List (List α)) : List (Grant α) :=
  places.map (⟨true, ·⟩)

theorem verdict_denyOnly {root place : List α} :
    verdict (denyOnly root) place = .admitted ↔ ¬ root <+: place := by
  rw [verdict_eq_admitted]
  simp [denyOnly, Covered]

theorem verdict_allowEach {places : List (List α)} {place : List α} :
    verdict (allowEach places) place = .admitted ↔ ∃ root ∈ places, root <+: place := by
  rw [verdict_eq_admitted]
  simp [allowEach, Covered]

/-- **One more reading changes no policy's answer exactly when it is sandwiched.** Necessity needs
only the policies `denyOnly place` and `allowEach readings`, so the policies may be restricted to
any language that has names for the root and for these places. -/
theorem admits_everywhere_iff (expressible : List α → Prop) (root : expressible [])
    {readings : List (List α)} (all : ∀ reading ∈ readings, expressible reading)
    {place : List α} (further : expressible place) :
    (∀ grants : List (Grant α), (∀ grant ∈ grants, expressible grant.root) →
      (∀ reading ∈ readings, verdict grants reading = .admitted) →
      verdict grants place = .admitted) ↔ Sandwiched readings place := by
  constructor
  · intro every
    constructor
    · by_contra none
      have named : ∀ grant ∈ denyOnly place, expressible grant.root := by
        intro grant member
        rcases List.mem_pair.mp member with rfl | rfl
        · exact root
        · exact further
      have admitted : ∀ reading ∈ readings, verdict (denyOnly place) reading = .admitted :=
        fun reading member => verdict_denyOnly.mpr fun inside => none ⟨reading, member, inside⟩
      exact verdict_denyOnly.mp (every _ named admitted) (List.prefix_refl place)
    · have named : ∀ grant ∈ allowEach readings, expressible grant.root := by
        intro grant member
        obtain ⟨reading, inside, rfl⟩ := List.mem_map.mp member
        exact all reading inside
      exact verdict_allowEach.mp (every _ named fun reading member =>
        verdict_allowEach.mpr ⟨reading, member, List.prefix_refl reading⟩)
  · exact fun between grants _ admitted => admitted_of_sandwiched between admitted

end OpenBerat.Lib
