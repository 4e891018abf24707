/-
**What stands in a history.**

A history is a list of events, oldest first. Some events raise a matter and some cancel it; the
matter stands after a history when it has been raised and not cancelled since.

* `standing_concat`: one event more.
* `standing_append`: a history in two parts.
* `everywhere_append`: what holds of every event given its past.
-/

import Mathlib.Data.List.Induction
import Mathlib.Tactic.Common

namespace OpenBerat.Lib

variable {ω : Type}

/-- Raised, and not cancelled since. -/
def Standing (raises cancels : ω → Prop) (past : List ω) : Prop :=
  ∃ before event after, past = before ++ event :: after ∧ raises event ∧
    ∀ later ∈ after, ¬ cancels later

variable {raises cancels : ω → Prop}

theorem not_standing_nil : ¬ Standing raises cancels [] := by
  rintro ⟨before, event, after, shape, _, _⟩
  have length := congrArg List.length shape
  rw [List.length_append, List.length_cons, List.length_nil] at length
  omega

/-- **One event more.** -/
theorem standing_concat {past : List ω} {event : ω} :
    Standing raises cancels (past ++ [event]) ↔
      raises event ∨ (Standing raises cancels past ∧ ¬ cancels event) := by
  constructor
  · rintro ⟨before, raised, after, shape, raising, kept⟩
    rcases List.eq_nil_or_concat after with rfl | ⟨rest, last, rfl⟩
    · obtain ⟨rfl, same⟩ := List.append_inj' shape rfl
      exact Or.inl (List.head_eq_of_cons_eq same ▸ raising)
    · rw [List.concat_eq_append, ← List.cons_append, ← List.append_assoc] at shape
      obtain ⟨rfl, same⟩ := List.append_inj' shape rfl
      rw [List.concat_eq_append] at kept
      refine Or.inr ⟨⟨before, raised, rest, rfl, raising, fun later member => ?_⟩, ?_⟩
      · exact kept later (List.mem_append_left _ member)
      · rw [List.head_eq_of_cons_eq same]
        exact kept last (List.mem_append_right _ List.mem_cons_self)
  · rintro (raising | ⟨⟨before, raised, after, rfl, raising, kept⟩, quiet⟩)
    · exact ⟨past, event, [], rfl, raising, fun later member => nomatch member⟩
    · refine ⟨before, raised, after ++ [event], ?_, raising, fun later member => ?_⟩
      · rw [List.append_assoc, List.cons_append]
      · rcases List.mem_append.mp member with old | new
        · exact kept later old
        · rw [List.mem_singleton.mp new]
          exact quiet

/-- **A history in two parts.** -/
theorem standing_append {before after : List ω} :
    Standing raises cancels (before ++ after) ↔ Standing raises cancels after ∨
      (Standing raises cancels before ∧ ∀ event ∈ after, ¬ cancels event) := by
  induction after using List.reverseRecOn with
  | nil =>
    rw [List.append_nil]
    refine ⟨fun standing => Or.inr ⟨standing, fun event member => nomatch member⟩, ?_⟩
    rintro (standing | ⟨standing, _⟩)
    · exact absurd standing not_standing_nil
    · exact standing
  | append_singleton rest event ih =>
    rw [← List.append_assoc, standing_concat, standing_concat, ih, List.forall_mem_append]
    simp only [List.mem_singleton, forall_eq]
    tauto

/-- Every event has the property, given what came before it. -/
def Everywhere (property : List ω → ω → Prop) (past : List ω) : Prop :=
  ∀ before event after, past = before ++ event :: after → property before event

theorem everywhere_nil (property : List ω → ω → Prop) : Everywhere property [] := by
  intro before event after shape
  have length := congrArg List.length shape
  rw [List.length_append, List.length_cons, List.length_nil] at length
  omega

theorem everywhere_concat {property : List ω → ω → Prop} {past : List ω} {event : ω} :
    Everywhere property (past ++ [event]) ↔ Everywhere property past ∧ property past event := by
  constructor
  · intro all
    refine ⟨fun before earlier after shape => ?_, all past event [] rfl⟩
    refine all before earlier (after ++ [event]) ?_
    rw [shape, List.append_assoc, List.cons_append]
  · rintro ⟨all, last⟩ before later after shape
    rcases List.eq_nil_or_concat after with rfl | ⟨rest, final, rfl⟩
    · obtain ⟨rfl, same⟩ := List.append_inj' shape rfl
      rwa [← List.head_eq_of_cons_eq same]
    · rw [List.concat_eq_append, ← List.cons_append, ← List.append_assoc] at shape
      exact all before later rest (List.append_inj' shape rfl).1

/-- **Events that bring nothing of their own** keep it. -/
theorem everywhere_append {property : List ω → ω → Prop} {past out : List ω}
    (all : Everywhere property past) (trivially : ∀ event ∈ out, ∀ before, property before event) :
    Everywhere property (past ++ out) := by
  induction out using List.reverseRecOn with
  | nil => rwa [List.append_nil]
  | append_singleton rest event ih =>
    rw [← List.append_assoc, everywhere_concat]
    refine ⟨ih fun earlier member => ?_, ?_⟩
    · exact trivially earlier (List.mem_append_left _ member)
    · exact trivially event (List.mem_append_right _ List.mem_cons_self) _

end OpenBerat.Lib
