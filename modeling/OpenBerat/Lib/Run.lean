/-
**Runs of a labelled machine.**

A machine is a partial step function; a step also reports what can be observed of it. `Run` is any
finite sequence of steps that a side condition on state and label permits, with the concatenated
reports as its trace.

* `Run.invariant`: what holds at the start and is kept by a permitted step holds at the end, trace
  and state together.
* `logged`: the machine that carries its own trace, for side conditions on what has happened.
* `Run.lead`: a run to some state, step by step; `Run.turn`: the step that brings something about.
* `exec`, `exec_append`, `exec_filter`, `exec_keeps`: running a list of labels; `Run.of_exec`,
  `Run.of_exec_within`, `Run.of_exec_guarded`: that it is a run.
* `exec_trace_eq`: two runs with related labels from related states report the same.
-/

import Mathlib.Tactic.Common

namespace OpenBerat.Lib

variable {σ ι ω : Type}

/-- The states and traces that permitted steps lead to. -/
inductive Run (step : σ → ι → Option (σ × List ω)) (allowed : σ → ι → Prop) (start : σ) :
    List ω → σ → Prop
  | refl : Run step allowed start [] start
  | next {trace : List ω} {state : σ} {label : ι} {state' : σ} {out : List ω} :
      Run step allowed start trace state → allowed state label →
      step state label = some (state', out) → Run step allowed start (trace ++ out) state'

namespace Run

variable {step : σ → ι → Option (σ × List ω)} {allowed : σ → ι → Prop} {start : σ}

/-- **The invariant rule.** -/
theorem invariant {property : List ω → σ → Prop} (base : property [] start)
    (kept : ∀ trace state label state' out, property trace state → allowed state label →
      step state label = some (state', out) → property (trace ++ out) state')
    {trace : List ω} {state : σ} (run : Run step allowed start trace state) :
    property trace state := by
  induction run with
  | refl => exact base
  | next _ permitted stepped ih => exact kept _ _ _ _ _ ih permitted stepped

theorem trans {first second : List ω} {middle state : σ}
    (before : Run step allowed start first middle) (after : Run step allowed middle second state) :
    Run step allowed start (first ++ second) state := by
  induction after with
  | refl => rwa [List.append_nil]
  | next _ permitted stepped ih =>
    rw [← List.append_assoc]
    exact ih.next permitted stepped

theorem single {label : ι} {state : σ} {out : List ω} (permitted : allowed start label)
    (stepped : step start label = some (state, out)) : Run step allowed start out state := by
  have run := (Run.refl : Run step allowed start [] start).next permitted stepped
  rwa [List.nil_append] at run

/-- A run to a state with a property, one more step in front. -/
theorem lead {property : σ → Prop} (label : ι) {middle : σ} {out : List ω}
    (permitted : allowed start label) (stepped : step start label = some (middle, out))
    (rest : ∃ trace state, Run step allowed middle trace state ∧ property state) :
    ∃ trace state, Run step allowed start trace state ∧ property state := by
  obtain ⟨trace, state, run, holds⟩ := rest
  exact ⟨out ++ trace, state, (single permitted stepped).trans run, holds⟩

/-- **Where something comes to hold**: a run to it from where it does not hold has a step that
brings it about. -/
theorem turn {property : σ → Prop} {trace : List ω} {state : σ}
    (run : Run step allowed start trace state) (not : ¬ property start) (holds : property state) :
    ∃ before middle label next out after, Run step allowed start before middle ∧
      allowed middle label ∧ step middle label = some (next, out) ∧ ¬ property middle ∧
      property next ∧ Run step allowed next after state ∧ trace = before ++ out ++ after := by
  induction run with
  | refl => exact absurd holds not
  | @next trace middle label next out run permitted stepped ih =>
    by_cases already : property middle
    · obtain ⟨before, there, by', then', out', after, first, allow, step', off, on, second, rfl⟩ :=
        ih already
      exact ⟨before, there, by', then', out', after ++ out, first, allow, step', off, on,
        second.next permitted stepped, by rw [List.append_assoc]⟩
    · exact ⟨trace, middle, label, next, out, [], run, permitted, stepped, already, holds, .refl,
        (List.append_nil _).symm⟩

theorem mono {weaker : σ → ι → Prop}
    (weakens : ∀ state label, allowed state label → weaker state label)
    {trace : List ω} {state : σ} (run : Run step allowed start trace state) :
    Run step weaker start trace state := by
  induction run with
  | refl => exact .refl
  | next _ permitted stepped ih => exact ih.next (weakens _ _ permitted) stepped

end Run

/-- The machine with its trace in the state. -/
def logged (step : σ → ι → Option (σ × List ω)) : List ω × σ → ι → Option ((List ω × σ) × List ω)
  | (past, state), label => (step state label).map fun (next, out) => ((past ++ out, next), out)

theorem logged_eq_some {step : σ → ι → Option (σ × List ω)} {past : List ω} {state : σ} {label : ι}
    {next : List ω × σ} {out : List ω} :
    logged step (past, state) label = some (next, out) ↔
      ∃ state', step state label = some (state', out) ∧ next = (past ++ out, state') := by
  unfold logged
  rw [Option.map_eq_some_iff]
  constructor
  · rintro ⟨⟨state', out⟩, stepped, same⟩
    cases same
    exact ⟨state', stepped, rfl⟩
  · rintro ⟨state', stepped, rfl⟩
    exact ⟨(state', out), stepped, rfl⟩

/-- Runs a list of labels. -/
def exec (step : σ → ι → Option (σ × List ω)) : σ → List ι → Option (σ × List ω)
  | state, [] => some (state, [])
  | state, label :: labels =>
    match step state label with
    | none => none
    | some (state', out) =>
      match exec step state' labels with
      | none => none
      | some (last, trace) => some (last, out ++ trace)

/-- One step, and then the others. -/
theorem exec_cons {step : σ → ι → Option (σ × List ω)} {state middle last : σ} {label : ι}
    {labels : List ι} {out trace : List ω} (stepped : step state label = some (middle, out))
    (done : exec step middle labels = some (last, trace)) :
    exec step state (label :: labels) = some (last, out ++ trace) := by
  unfold exec
  rw [stepped]
  dsimp only
  rw [done]

/-- Labels in two parts. -/
theorem exec_append {step : σ → ι → Option (σ × List ω)} {state middle last : σ}
    {first second : List ι} {out trace : List ω}
    (before : exec step state first = some (middle, out))
    (after : exec step middle second = some (last, trace)) :
    exec step state (first ++ second) = some (last, out ++ trace) := by
  induction first generalizing state out with
  | nil =>
    cases before
    exact after
  | cons label first ih =>
    unfold exec at before
    cases stepped : step state label with
    | none =>
      rw [stepped] at before
      cases before
    | some next =>
      rw [stepped] at before
      dsimp only at before
      cases rest : exec step next.1 first with
      | none =>
        rw [rest] at before
        cases before
      | some done =>
        rw [rest] at before
        cases before
        rw [List.cons_append, List.append_assoc]
        exact exec_cons stepped (ih rest)

/-- **Labels that do nothing** may as well not come. -/
theorem exec_filter {step : σ → ι → Option (σ × List ω)} {keep : ι → Bool}
    (silent : ∀ state label, keep label = false → step state label = some (state, [])) {start : σ}
    {labels : List ι} : exec step start (labels.filter keep) = exec step start labels := by
  induction labels generalizing start with
  | nil => rfl
  | cons label labels ih =>
    cases kept : keep label with
    | true =>
      rw [List.filter_cons_of_pos kept]
      unfold exec
      cases step start label with
      | none => rfl
      | some next => simp only [ih]
    | false =>
      rw [List.filter_cons_of_neg (by rw [kept]; exact Bool.false_ne_true), ih]
      conv_rhs => unfold exec
      rw [silent start label kept]
      dsimp only
      cases exec step start labels with
      | none => rfl
      | some done => rfl

/-- Executing labels on a machine that takes only permitted steps is a run. -/
theorem Run.of_exec_within {step other : σ → ι → Option (σ × List ω)} {allowed : σ → ι → Prop}
    {labels : List ι} (permitted : ∀ label ∈ labels, ∀ state next, other state label = some next →
      allowed state label ∧ step state label = some next)
    {start state : σ} {trace : List ω} (done : exec other start labels = some (state, trace)) :
    Run step allowed start trace state := by
  induction labels generalizing start trace with
  | nil =>
    cases done
    exact .refl
  | cons label labels ih =>
    unfold exec at done
    cases stepped : other start label with
    | none =>
      rw [stepped] at done
      cases done
    | some next =>
      obtain ⟨middle, out⟩ := next
      rw [stepped] at done
      dsimp only at done
      cases rest : exec other middle labels with
      | none =>
        rw [rest] at done
        cases done
      | some last =>
        rw [rest] at done
        cases done
        obtain ⟨allow, taken⟩ := permitted label List.mem_cons_self start _ stepped
        exact (Run.single allow taken).trans
          (ih (fun later member => permitted later (List.mem_cons_of_mem _ member)) rest)

/-- Executing permitted labels is a run. -/
theorem Run.of_exec {step : σ → ι → Option (σ × List ω)} {allowed : σ → ι → Prop}
    {labels : List ι} (permitted : ∀ label ∈ labels, ∀ state, allowed state label)
    {start state : σ} {trace : List ω} (done : exec step start labels = some (state, trace)) :
    Run step allowed start trace state :=
  Run.of_exec_within (fun label member state _ stepped => ⟨permitted label member state, stepped⟩)
    done

/-- **What no label of the list touches** is as it was. -/
theorem exec_keeps {step : σ → ι → Option (σ × List ω)} {α : Type} {view : σ → α} {labels : List ι}
    (kept : ∀ label ∈ labels, ∀ state next out, step state label = some (next, out) →
      view next = view state)
    {start last : σ} {trace : List ω} (done : exec step start labels = some (last, trace)) :
    view last = view start := by
  have run : Run step (fun state label => ∀ next out, step state label = some (next, out) →
      view next = view state) start trace last :=
    Run.of_exec (fun label member state => kept label member state) done
  exact @Run.invariant _ _ _ _ _ _ (fun _ state => view state = view start) rfl
    (fun _ _ _ next out same permitted stepped => (permitted next out stepped).trans same) _ _ run

/-- The machine that takes permitted steps only. -/
def guarded (step : σ → ι → Option (σ × List ω)) (allowed : σ → ι → Prop)
    [∀ state label, Decidable (allowed state label)] (state : σ) (label : ι) :
    Option (σ × List ω) :=
  if allowed state label then step state label else none

theorem guarded_eq_some {step : σ → ι → Option (σ × List ω)} {allowed : σ → ι → Prop}
    [∀ state label, Decidable (allowed state label)] {state : σ} {label : ι} {next : σ × List ω} :
    guarded step allowed state label = some next ↔
      allowed state label ∧ step state label = some next := by
  unfold guarded
  rw [Option.ite_none_right_eq_some]

/-- Executing labels under guard is a run, whatever is permitted. -/
theorem Run.of_exec_guarded {step : σ → ι → Option (σ × List ω)} {allowed : σ → ι → Prop}
    [∀ state label, Decidable (allowed state label)] {labels : List ι} {start state : σ}
    {trace : List ω} (done : exec (guarded step allowed) start labels = some (state, trace)) :
    Run step allowed start trace state :=
  Run.of_exec_within (fun _ _ _ _ stepped => guarded_eq_some.mp stepped) done

theorem Run.of_guarded {step : σ → ι → Option (σ × List ω)} {allowed : σ → ι → Prop}
    [∀ state label, Decidable (allowed state label)] {labels : List ι} {start : σ} {trace : List ω}
    (done : (exec (guarded step allowed) start labels).map Prod.snd = some trace) :
    ∃ state, Run step allowed start trace state := by
  obtain ⟨⟨state, _⟩, executed, rfl⟩ := Option.map_eq_some_iff.mp done
  exact ⟨state, Run.of_exec_guarded executed⟩

/-- **Two runs of one machine.** Symmetric relations between states and between labels that steps
keep, reports included, make the labels report the same. -/
theorem exec_trace_eq {step : σ → ι → Option (σ × List ω)} {related : σ → σ → Prop}
    {alike : ι → ι → Prop} (symmetric : ∀ first second, related first second → related second first)
    (mutually : ∀ first second, alike first second → alike second first)
    (kept : ∀ first second label other next out, related first second → alike label other →
      step first label = some (next, out) →
        ∃ last, step second other = some (last, out) ∧ related next last)
    {labels others : List ι} (pairwise : List.Forall₂ alike labels others) {first second : σ}
    (start : related first second) :
    (exec step first labels).map Prod.snd = (exec step second others).map Prod.snd := by
  induction pairwise generalizing first second with
  | nil => rfl
  | @cons label other labels others same _ ih =>
    unfold exec
    cases stepped : step first label with
    | none =>
      cases also : step second other with
      | none => rfl
      | some pair =>
        obtain ⟨_, found, _⟩ :=
          kept _ _ _ _ _ _ (symmetric _ _ start) (mutually _ _ same) also
        rw [stepped] at found
        cases found
    | some pair =>
      obtain ⟨next, out⟩ := pair
      obtain ⟨last, found, after⟩ := kept _ _ _ _ _ _ start same stepped
      rw [found]
      dsimp only
      have rest := ih after
      cases left : exec step next labels with
      | none =>
        rw [left] at rest
        cases right : exec step last others with
        | none => rfl
        | some pair =>
          rw [right] at rest
          cases rest
      | some pair =>
        rw [left] at rest
        cases right : exec step last others with
        | none =>
          rw [right] at rest
          cases rest
        | some final =>
          rw [right] at rest
          have traces : pair.2 = final.2 := Option.some.inj rest
          show some (out ++ pair.2) = some (out ++ final.2)
          rw [traces]

end OpenBerat.Lib
