/-
**Runs of a labelled transition function, and the invariant rule along a run.**

A system is given by a partial step function `step : σ → α → Option σ`: the label `α` carries every
choice that is not the system's own (which thread moves, which call it makes), and `none` says the
label is not enabled there. Everything below is over arbitrary states and labels.

* `exec step s labels` — the state after the labels, when each of them is enabled in turn.
* `Along step good s labels` — every step of the run satisfies `good`, a condition on the state
  before the step and on the label.
* `Throughout step p s labels` — every state that the run reaches satisfies `p`.
* `exec_invariant` — an invariant that good steps preserve holds after every run of good steps.
* `exec_simulates` — a second system that can follow every good step can follow every run of them.
* `Along.of_invariant` — a condition of the steps that an invariant implies may be dropped.
* `throughout_iff_along_given`, `throughout_iff_along` — a condition of the steps is exact when, from each
  state of an invariant, it decides whether the next state is as it should be.
* `exec_of_any`, `decidableAlong`, `decidableThroughout` — concrete runs are evaluated.
-/

import Mathlib.Data.List.Infix
import Mathlib.Data.Option.Basic

namespace MinSmt.Library

variable {σ α : Type*}

section Exec

variable (step : σ → α → Option σ)

/-- The state after performing the labels in order, when every one of them is enabled. -/
def exec (s : σ) : List α → Option σ
  | [] => some s
  | label :: labels => (step s label).bind fun next => exec next labels

/-- Every step of the run meets a condition on the state before it and on its label. -/
def Along (good : σ → α → Prop) : σ → List α → Prop
  | _, [] => True
  | s, label :: labels => good s label ∧ ∀ next, step s label = some next → Along good next labels

/-- Every state that the run reaches satisfies a predicate. -/
def Throughout (p : σ → Prop) : σ → List α → Prop
  | s, [] => p s
  | s, label :: labels => p s ∧ ∀ next, step s label = some next → Throughout p next labels

variable {step}

@[simp] theorem exec_nil (s : σ) : exec step s [] = some s := rfl

theorem exec_cons {s final : σ} {label : α} {labels : List α}
    (run : exec step s (label :: labels) = some final) :
    ∃ next, step s label = some next ∧ exec step next labels = some final :=
  Option.bind_eq_some_iff.mp run

theorem exec_append_eq (s : σ) (first second : List α) :
    exec step s (first ++ second) = (exec step s first).bind fun middle => exec step middle second := by
  induction first generalizing s with
  | nil => rfl
  | cons label labels ih =>
    show (step s label).bind _ = ((step s label).bind _).bind _
    rw [Option.bind_assoc]
    exact congrArg _ (funext fun next => ih next)

theorem exec_append {s final : σ} {first second : List α}
    (run : exec step s (first ++ second) = some final) :
    ∃ middle, exec step s first = some middle ∧ exec step middle second = some final := by
  rw [exec_append_eq] at run
  exact Option.bind_eq_some_iff.mp run

/-- **The invariant rule.** What every good step preserves holds after every run of good steps. -/
theorem exec_invariant {good : σ → α → Prop} (inv : σ → Prop)
    (preserved : ∀ s label next, inv s → good s label → step s label = some next → inv next)
    {s final : σ} {labels : List α} (holds : inv s) (along : Along step good s labels)
    (run : exec step s labels = some final) : inv final := by
  induction labels generalizing s with
  | nil =>
    cases run
    exact holds
  | cons label labels ih =>
    obtain ⟨next, moved, rest⟩ := exec_cons run
    exact ih (preserved s label next holds along.1 moved) (along.2 next moved) rest

/-- **The simulation rule.** If a second system can follow every good step of the first, it can follow every
run of good steps. -/
theorem exec_simulates {τ : Type*} {step' : τ → α → Option τ} {good : σ → α → Prop} (related : σ → τ → Prop)
    (follows : ∀ s t label next, related s t → good s label → step s label = some next →
      ∃ next', step' t label = some next' ∧ related next next')
    {s final : σ} {t : τ} {labels : List α} (start : related s t) (along : Along step good s labels)
    (run : exec step s labels = some final) :
    ∃ final', exec step' t labels = some final' ∧ related final final' := by
  induction labels generalizing s t with
  | nil =>
    cases run
    exact ⟨t, rfl, start⟩
  | cons label labels ih =>
    obtain ⟨next, moved, rest⟩ := exec_cons run
    obtain ⟨next', moved', there⟩ := follows s t label next start along.1 moved
    obtain ⟨final', run', ending⟩ := ih there (along.2 next moved) rest
    refine ⟨final', ?_, ending⟩
    show (step' t label).bind _ = _
    rw [moved']
    exact run'

/-- A condition on the labels alone. -/
theorem along_of_labels {good : α → Prop} {labels : List α} (each : ∀ label ∈ labels, good label)
    (s : σ) : Along step (fun _ label => good label) s labels := by
  induction labels generalizing s with
  | nil => trivial
  | cons label labels ih =>
    refine ⟨each label List.mem_cons_self, fun next _ => ?_⟩
    exact ih (fun other member => each other (List.mem_cons_of_mem _ member)) next

theorem Along.mono {good better : σ → α → Prop} (weaker : ∀ s label, better s label → good s label)
    {s : σ} {labels : List α} (along : Along step better s labels) :
    Along step good s labels := by
  induction labels generalizing s with
  | nil => trivial
  | cons label labels ih =>
    exact ⟨weaker s label along.1, fun next moved => ih (along.2 next moved)⟩

theorem Along.and {good better : σ → α → Prop} {s : σ} {labels : List α}
    (first : Along step good s labels) (second : Along step better s labels) :
    Along step (fun s label => good s label ∧ better s label) s labels := by
  induction labels generalizing s with
  | nil => trivial
  | cons label labels ih =>
    exact ⟨⟨first.1, second.1⟩, fun next moved => ih (first.2 next moved) (second.2 next moved)⟩

/-- A condition of the steps of a run is one of both its parts. -/
theorem Along.append {good : σ → α → Prop} {s middle : σ} {first second : List α}
    (along : Along step good s (first ++ second)) (run : exec step s first = some middle) :
    Along step good s first ∧ Along step good middle second := by
  induction first generalizing s with
  | nil =>
    cases run
    exact ⟨trivial, along⟩
  | cons label labels ih =>
    obtain ⟨next, moved, rest⟩ := exec_cons run
    obtain ⟨here, there⟩ := ih (along.2 next moved) rest
    refine ⟨⟨along.1, fun next' moved' => ?_⟩, there⟩
    rw [moved] at moved'
    cases moved'
    exact here

/-- **Conditions of the steps may be discharged with the help of the invariant they sustain.** -/
theorem Along.of_invariant {good better : σ → α → Prop} (inv : σ → Prop)
    (preserved : ∀ s label next, inv s → good s label → step s label = some next → inv next)
    (enough : ∀ s label, inv s → better s label → good s label)
    {s : σ} {labels : List α} (holds : inv s) (along : Along step better s labels) :
    Along step good s labels := by
  induction labels generalizing s with
  | nil => trivial
  | cons label labels ih =>
    have fine := enough s label holds along.1
    refine ⟨fine, fun next moved => ?_⟩
    exact ih (preserved s label next holds fine moved) (along.2 next moved)

/-- **An exact condition of the steps**, along runs whose steps are as given. If from every state of an
invariant a step meets the condition exactly when it leads to a state with the property, then along a
run all steps meet the condition exactly when all states have the property. -/
theorem throughout_iff_along_given {given good : σ → α → Prop} {p : σ → Prop} (inv : σ → Prop)
    (here : ∀ s, inv s → p s)
    (preserved : ∀ s label next, inv s → given s label → good s label → step s label = some next → inv next)
    (decides : ∀ s label next, inv s → given s label → step s label = some next →
      (p next ↔ good s label))
    {s final : σ} {labels : List α} (holds : inv s) (along : Along step given s labels)
    (run : exec step s labels = some final) :
    Throughout step p s labels ↔ Along step good s labels := by
  induction labels generalizing s with
  | nil => exact iff_of_true (here s holds) trivial
  | cons label labels ih =>
    obtain ⟨next, moved, rest⟩ := exec_cons run
    have only : ∀ next', step s label = some next' → next' = next := fun next' moved' =>
      Option.some.inj (moved'.symm.trans moved)
    constructor
    · rintro ⟨-, later⟩
      have nextHolds : p next := by
        have there := later next moved
        cases labels with
        | nil => exact there
        | cons label' labels => exact there.1
      have fine := (decides s label next holds along.1 moved).mp nextHolds
      refine ⟨fine, fun next' moved' => ?_⟩
      rw [only next' moved']
      exact (ih (preserved s label next holds along.1 fine moved) (along.2 next moved) rest).mp
        (later next moved)
    · rintro ⟨fine, later⟩
      refine ⟨here s holds, fun next' moved' => ?_⟩
      rw [only next' moved']
      exact (ih (preserved s label next holds along.1 fine moved) (along.2 next moved) rest).mpr
        (later next moved)

/-- **An exact condition of the steps**, along any run. -/
theorem throughout_iff_along {good : σ → α → Prop} {p : σ → Prop} (inv : σ → Prop)
    (here : ∀ s, inv s → p s)
    (preserved : ∀ s label next, inv s → good s label → step s label = some next → inv next)
    (decides : ∀ s label next, inv s → step s label = some next → (p next ↔ good s label))
    {s final : σ} {labels : List α} (holds : inv s) (run : exec step s labels = some final) :
    Throughout step p s labels ↔ Along step good s labels :=
  throughout_iff_along_given inv here (fun s label next inv _ => preserved s label next inv)
    (fun s label next inv _ => decides s label next inv) holds
    (along_of_labels (fun _ _ => trivial) s) run

/-- Every state that a run reaches includes the last one. -/
theorem Throughout.final {p : σ → Prop} {s final : σ} {labels : List α}
    (throughout : Throughout step p s labels) (run : exec step s labels = some final) : p final := by
  induction labels generalizing s with
  | nil =>
    cases run
    exact throughout
  | cons label labels ih =>
    obtain ⟨next, moved, rest⟩ := exec_cons run
    exact ih (throughout.2 next moved) rest

/-! ### Concrete runs -/

/-- A run that can be evaluated can be evaluated to a state. -/
theorem exec_of_any {s : σ} {labels : List α} {p : σ → Bool}
    (found : (exec step s labels).any p = true) :
    ∃ final, exec step s labels = some final ∧ p final = true := by
  cases run : exec step s labels with
  | none =>
    rw [run] at found
    cases found
  | some final =>
    rw [run] at found
    exact ⟨final, rfl, found⟩

/-- A decidable condition of the steps can be evaluated along a run. -/
instance decidableAlong (good : σ → α → Prop) [∀ s label, Decidable (good s label)] :
    ∀ s labels, Decidable (Along step good s labels)
  | _, [] => isTrue trivial
  | s, label :: labels =>
    match moved : step s label with
    | none => decidable_of_iff (good s label)
        ⟨fun here => ⟨here, fun next isNext => by rw [moved] at isNext; cases isNext⟩, And.left⟩
    | some next =>
      have := decidableAlong good next labels
      decidable_of_iff (good s label ∧ Along step good next labels)
        ⟨fun both => ⟨both.1, fun next' isNext => by
          rw [moved] at isNext
          cases isNext
          exact both.2⟩, fun along => ⟨along.1, along.2 next moved⟩⟩

/-- A decidable property of the states can be evaluated along a run. -/
instance decidableThroughout (p : σ → Prop) [DecidablePred p] :
    ∀ s labels, Decidable (Throughout step p s labels)
  | s, [] => inferInstanceAs (Decidable (p s))
  | s, label :: labels =>
    match moved : step s label with
    | none => decidable_of_iff (p s)
        ⟨fun here => ⟨here, fun next isNext => by rw [moved] at isNext; cases isNext⟩, And.left⟩
    | some next =>
      have := decidableThroughout p next labels
      decidable_of_iff (p s ∧ Throughout step p next labels)
        ⟨fun both => ⟨both.1, fun next' isNext => by
          rw [moved] at isNext
          cases isNext
          exact both.2⟩, fun throughout => ⟨throughout.1, throughout.2 next moved⟩⟩

end Exec

end MinSmt.Library
