/-
**Bounded progress along a run.**

Some steps help: each of them brings the system closer to where it should get, and no step takes it
away again. Then a run that does not get there has only so many of them, in whatever order the steps
come.

* `helpful step helps s labels` — how many steps of a run help.
* `helpful_le` — the rule: with a measure that no step raises and every step that helps lowers.
* `exec_append_of` — two runs, one after the other.
* `exec_replicate` — a label that is enabled in each state of a sequence, repeated.
-/

import MinSmt.Library.Run

namespace MinSmt.Library

variable {σ α : Type*}

section Progress

variable (step : σ → α → Option σ) (helps : σ → α → Bool)

/-- How many steps of a run help. -/
def helpful (s : σ) : List α → Nat
  | [] => 0
  | label :: labels => (helps s label).toNat + ((step s label).map fun next => helpful next labels).getD 0

variable {step helps}

theorem helpful_cons {s next : σ} {label : α} {labels : List α} (moved : step s label = some next) :
    helpful step helps s (label :: labels) = (helps s label).toNat + helpful step helps next labels := by
  rw [helpful, moved]
  rfl

/-- **The rule of bounded progress.** From a state of an invariant, a step that does not get there keeps the
invariant, does not raise the measure, and lowers it when it helps; then a run that does not get there has
at most as many steps that help as the measure says. -/
theorem helpful_le (inv : σ → Prop) {pending : σ → Prop} (measure : σ → Nat)
    (moves : ∀ s label next, inv s → pending s → pending next → step s label = some next →
      inv next ∧ measure next + (helps s label).toNat ≤ measure s)
    {s final : σ} {labels : List α} (holds : inv s) (throughout : Throughout step pending s labels)
    (run : exec step s labels = some final) : helpful step helps s labels ≤ measure s := by
  induction labels generalizing s with
  | nil => exact Nat.zero_le _
  | cons label labels ih =>
    obtain ⟨next, moved, rest⟩ := exec_cons run
    have later := throughout.2 next moved
    have there : pending next := by
      cases labels with
      | nil => exact later
      | cons => exact later.1
    obtain ⟨still, less⟩ := moves s label next holds throughout.1 there moved
    have few := ih still later rest
    rw [helpful_cons moved]
    omega

/-- Two runs, one after the other. -/
theorem exec_append_of {s middle final : σ} {first second : List α} (run : exec step s first = some middle)
    (run' : exec step middle second = some final) : exec step s (first ++ second) = some final := by
  rw [exec_append_eq, run, Option.bind_some, run']

/-- A label that leads from each state of a sequence to the next one can be repeated. -/
theorem exec_replicate {label : α} (states : Nat → σ)
    (moves : ∀ k, step (states (k + 1)) label = some (states k)) (n : Nat) :
    exec step (states n) (List.replicate n label) = some (states 0) := by
  induction n with
  | zero => rfl
  | succ n ih =>
    rw [List.replicate_succ]
    show (step (states (n + 1)) label).bind _ = _
    rw [moves n]
    exact ih

end Progress

end MinSmt.Library
