/-
**Dialogues.**

A dialogue asks a question, goes on from whatever is answered, and ends with a result. Its runs are
given by the answers alone, and nothing is assumed of these.

* `Meets`: the weakest precondition for asking only what the history permits and for ending well.
* `meets_bind`, `meets_bind_except`, `Meets.mono`, `Meets.andThen`: its rules.
* `permitted_of_run`: what it says of every run.
-/

import Mathlib.Tactic.Common
import OpenBerat.Lib.History

namespace OpenBerat.Lib

/-- A computation that asks questions on its way to a result. -/
inductive Dialogue (Q A R : Type) : Type
  | ret (result : R)
  | ask (question : Q) (next : A → Dialogue Q A R)

namespace Dialogue

variable {Q A R S E : Type}

/-- One dialogue after another. -/
def bind : Dialogue Q A R → (R → Dialogue Q A S) → Dialogue Q A S
  | .ret result, rest => rest result
  | .ask question next, rest => .ask question fun answer => (next answer).bind rest

instance : Monad (Dialogue Q A) where
  pure := .ret
  bind := .bind

/-- One question and its answer. -/
def query (question : Q) : Dialogue Q A A :=
  .ask question .ret

/-- The questions that are asked when these are the answers, and the result if it is reached. -/
def run : Dialogue Q A R → List A → List (Q × A) × Option R
  | .ret result, _ => ([], some result)
  | .ask _ _, [] => ([], none)
  | .ask question next, answer :: answers =>
    let (trace, result) := (next answer).run answers
    ((question, answer) :: trace, result)

/-- Every question is permitted by what came before it, and the result is what `post` asks for. -/
def Meets (permitted : List (Q × A) → Q → Prop) :
    List (Q × A) → Dialogue Q A R → (List (Q × A) → R → Prop) → Prop
  | past, .ret result, post => post past result
  | past, .ask question next, post =>
    permitted past question ∧
      ∀ answer, (next answer).Meets permitted (past ++ [(question, answer)]) post

variable {permitted : List (Q × A) → Q → Prop} {past : List (Q × A)}

/-- **One dialogue and then another.** -/
theorem meets_bind {dialogue : Dialogue Q A R} {rest : R → Dialogue Q A S}
    {post : List (Q × A) → S → Prop} :
    Meets permitted past (dialogue >>= rest) post ↔
      Meets permitted past dialogue fun past result => Meets permitted past (rest result) post := by
  induction dialogue generalizing past with
  | ret result => exact Iff.rfl
  | ask question next ih => exact and_congr_right' (forall_congr' fun answer => ih answer)

/-- **The same where the first may give up.** -/
theorem meets_bind_except {dialogue : ExceptT E (Dialogue Q A) R}
    {rest : R → ExceptT E (Dialogue Q A) S} {post : List (Q × A) → Except E S → Prop} :
    Meets permitted past (dialogue >>= rest).run post ↔
      Meets permitted past dialogue.run fun past result => match result with
        | .error why => post past (.error why)
        | .ok value => Meets permitted past (rest value).run post := by
  refine (@meets_bind _ _ _ _ _ _ dialogue.run (ExceptT.bindCont rest) post).trans ?_
  have same : (fun past result => Meets permitted past (ExceptT.bindCont rest result) post) =
      fun past result => match result with
        | .error why => post past (.error why)
        | .ok value => Meets permitted past (rest value).run post := by
    funext past result
    cases result with
    | error why => rfl
    | ok value => rfl
  rw [same]

/-- **A weaker demand.** -/
theorem Meets.mono {dialogue : Dialogue Q A R} {strong weak : List (Q × A) → R → Prop}
    (meets : Meets permitted past dialogue strong)
    (weakens : ∀ past result, strong past result → weak past result) :
    Meets permitted past dialogue weak := by
  induction dialogue generalizing past with
  | ret result => exact weakens past result meets
  | ask question next ih => exact ⟨meets.1, fun answer => ih answer (meets.2 answer)⟩

/-- What is asked for where nothing is given up. -/
def Okay (post : List (Q × A) → R → Prop) (past : List (Q × A)) (result : Except E R) : Prop :=
  ∀ value, result = .ok value → post past value

/-- **A step that may give up, and what follows where it does not.** -/
theorem Meets.andThen {dialogue : ExceptT E (Dialogue Q A) R}
    {rest : R → ExceptT E (Dialogue Q A) S}
    {middle : List (Q × A) → R → Prop} {post : List (Q × A) → S → Prop}
    (first : Meets permitted past dialogue.run (Okay middle))
    (then' : ∀ past value, middle past value → Meets permitted past (rest value).run (Okay post)) :
    Meets permitted past (dialogue >>= rest).run (Okay post) := by
  refine meets_bind_except.mpr (first.mono fun past result holds => ?_)
  cases result with
  | error why => exact fun _ same => nomatch same
  | ok value => exact then' past value (holds value rfl)

/-- **Every run** asks what is permitted, whatever is answered. -/
theorem permitted_of_run {dialogue : Dialogue Q A R} {post : List (Q × A) → R → Prop}
    (meets : Meets permitted past dialogue post) (answers : List A) :
    Everywhere (fun before said => permitted (past ++ before) said.1) (dialogue.run answers).1 ∧
    ∀ result, (dialogue.run answers).2 = some result →
      post (past ++ (dialogue.run answers).1) result := by
  induction dialogue generalizing past answers with
  | ret result =>
    refine ⟨fun before said after shape => ?_, fun other same => ?_⟩
    · exact absurd shape.symm (List.append_ne_nil_of_right_ne_nil _ (List.cons_ne_nil _ _))
    · cases same
      exact (List.append_nil past).symm ▸ meets
  | ask question next ih =>
    cases answers with
    | nil =>
      refine ⟨fun before said after shape => ?_, fun other same => nomatch same⟩
      exact absurd shape.symm (List.append_ne_nil_of_right_ne_nil _ (List.cons_ne_nil _ _))
    | cons answer answers =>
      obtain ⟨asked, ended⟩ := ih answer (meets.2 answer) answers
      refine ⟨fun before said after shape => ?_, fun result same => ?_⟩
      · have shape : (question, answer) :: ((next answer).run answers).1 =
            before ++ said :: after := shape
        rcases List.cons_eq_append_iff.mp shape with ⟨rfl, same⟩ | ⟨rest, rfl, later⟩
        · obtain ⟨rfl, _⟩ := List.cons.inj same
          show permitted (past ++ []) question
          rw [List.append_nil]
          exact meets.1
        · show permitted (past ++ (question, answer) :: rest) said.1
          rw [List.append_cons]
          exact asked rest said after later
      · show post (past ++ (question, answer) :: ((next answer).run answers).1) result
        rw [List.append_cons]
        exact ended result same

end Dialogue

end OpenBerat.Lib
