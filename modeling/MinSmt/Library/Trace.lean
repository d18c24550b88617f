/-
**What a run shows, and when runs show the same.**

Some steps of a system are events. Everything below is over arbitrary states, labels and events.

* `trace event s labels` — the events of a run, in order.
* `trace_simulates` — a second system that lags behind the first, and catches up whenever the first one does
  more than move on silently, shows the same events.
* `exec_follows` — the events of the first are the labels of the second: then the second runs along the trace.
* `exec_agree` — where at most one label is enabled at a time, two runs from one state take the same
  steps, as far as both of them go.
* `trace_agree` — then their events agree.
-/

import MinSmt.Library.Run

namespace MinSmt.Library

variable {σ τ α β ε ε' : Type*}

section Trace

variable (step : σ → α → Option σ) (event : σ → α → Option ε)

/-- The events of a run. -/
def trace (s : σ) : List α → List ε
  | [] => []
  | label :: labels =>
    match step s label with
    | none => []
    | some next => (event s label).toList ++ trace next labels

variable {step event}

theorem trace_cons {s next : σ} {label : α} {labels : List α} (moved : step s label = some next) :
    trace step event s (label :: labels) = (event s label).toList ++ trace step event next labels := by
  rw [trace, moved]

theorem trace_append {s middle : σ} {first second : List α} (run : exec step s first = some middle) :
    trace step event s (first ++ second) = trace step event s first ++ trace step event middle second := by
  induction first generalizing s with
  | nil =>
    cases run
    rfl
  | cons label labels ih =>
    obtain ⟨next, moved, rest⟩ := exec_cons run
    rw [List.cons_append, trace_cons moved, trace_cons moved, ih rest, List.append_assoc]

end Trace

/-! ### A system that lags behind -/

/-- **The rule of the lagging system.** Let every good step of the first system be silent, while the
second stays where it is, or be a step of the second, with an event of which the first shows a view.
Then the second has, for every run of good steps of the first, a run of which the first shows the
view. -/
theorem trace_simulates {step : σ → α → Option σ} {event : σ → α → Option ε} {step' : τ → β → Option τ}
    {event' : τ → β → Option ε'} {view : ε' → ε} {good : σ → α → Prop} (related : σ → τ → Prop)
    (follows : ∀ s t label next, related s t → good s label → step s label = some next →
      (event s label = none ∧ related next t) ∨
      ∃ label' next', step' t label' = some next' ∧ event s label = (event' t label').map view ∧
        related next next')
    {s final : σ} {t : τ} {labels : List α} (start : related s t) (along : Along step good s labels)
    (run : exec step s labels = some final) :
    ∃ labels' final', exec step' t labels' = some final' ∧
      trace step event s labels = (trace step' event' t labels').map view ∧ related final final' := by
  induction labels generalizing s t with
  | nil =>
    cases run
    exact ⟨[], t, rfl, rfl, start⟩
  | cons label labels ih =>
    obtain ⟨next, moved, rest⟩ := exec_cons run
    rcases follows s t label next start along.1 moved with ⟨silent, still⟩ | ⟨label', next', moved', same, there⟩
    · obtain ⟨labels', final', run', shows, ending⟩ := ih still (along.2 next moved) rest
      refine ⟨labels', final', run', ?_, ending⟩
      rw [trace_cons moved, silent, shows]
      rfl
    · obtain ⟨labels', final', run', shows, ending⟩ := ih there (along.2 next moved) rest
      refine ⟨label' :: labels', final', ?_, ?_, ending⟩
      · show (step' t label').bind _ = _
        rw [moved']
        exact run'
      · rw [trace_cons moved', trace_cons moved, same, shows, List.map_append]
        cases event' t label' <;> rfl

/-- **The rule of the system that runs along.** Let the events of the first system be labels of the second,
and let every good step of the first be silent, while the second stays where it is, or be an event that
is a good step of the second. Then the second can run along the trace of every run of good steps, by
good steps. -/
theorem exec_follows {step : σ → α → Option σ} {event : σ → α → Option β} {step' : τ → β → Option τ}
    {good : σ → α → Prop} {good' : τ → β → Prop} (related : σ → τ → Prop)
    (follows : ∀ s t label next, related s t → good s label → step s label = some next →
      (event s label = none ∧ related next t) ∨
      ∃ label' next', event s label = some label' ∧ good' t label' ∧ step' t label' = some next' ∧
        related next next')
    {s final : σ} {t : τ} {labels : List α} (start : related s t) (along : Along step good s labels)
    (run : exec step s labels = some final) :
    ∃ final', exec step' t (trace step event s labels) = some final' ∧
      Along step' good' t (trace step event s labels) ∧ related final final' := by
  induction labels generalizing s t with
  | nil =>
    cases run
    exact ⟨t, rfl, trivial, start⟩
  | cons label labels ih =>
    obtain ⟨next, moved, rest⟩ := exec_cons run
    rw [trace_cons moved]
    rcases follows s t label next start along.1 moved with ⟨silent, still⟩ |
      ⟨label', next', isLabel, fine, moved', there⟩
    · rw [silent]
      exact ih still (along.2 next moved) rest
    · obtain ⟨final', run', along', ending⟩ := ih there (along.2 next moved) rest
      rw [isLabel]
      refine ⟨final', ?_, ⟨fine, fun other isOther => ?_⟩, ending⟩
      · show (step' t label').bind _ = _
        rw [moved']
        exact run'
      · obtain rfl := Option.some.inj (moved'.symm.trans isOther)
        exact along'

/-! ### Systems with one enabled label -/

section Agree

variable {step : σ → α → Option σ} {event : σ → α → Option ε}

/-- **Where one label at most is enabled, one of two runs goes on from the other.** -/
theorem exec_agree (inv : σ → Prop)
    (preserved : ∀ s label next, inv s → step s label = some next → inv next)
    (unique : ∀ s label label' next next', inv s → step s label = some next → step s label' = some next' →
      label = label')
    {s final final' : σ} {labels labels' : List α} (holds : inv s) (run : exec step s labels = some final)
    (run' : exec step s labels' = some final') : labels <+: labels' ∨ labels' <+: labels := by
  induction labels generalizing s labels' with
  | nil => exact Or.inl List.nil_prefix
  | cons label labels ih =>
    cases labels' with
    | nil => exact Or.inr List.nil_prefix
    | cons label' labels' =>
      obtain ⟨next, moved, rest⟩ := exec_cons run
      obtain ⟨next', moved', rest'⟩ := exec_cons run'
      obtain rfl := unique s label label' next next' holds moved moved'
      obtain rfl := Option.some.inj (moved.symm.trans moved')
      rcases ih (preserved s label next holds moved) rest rest' with shorter | longer
      · exact Or.inl (List.cons_prefix_cons.mpr ⟨rfl, shorter⟩)
      · exact Or.inr (List.cons_prefix_cons.mpr ⟨rfl, longer⟩)

/-- The events of a run begin with those of its beginning. -/
theorem trace_grows {s final : σ} {labels labels' : List α} (shorter : labels <+: labels')
    (run : exec step s labels' = some final) : trace step event s labels <+: trace step event s labels' := by
  obtain ⟨rest, rfl⟩ := shorter
  obtain ⟨middle, first, -⟩ := exec_append run
  rw [trace_append first]
  exact List.prefix_append _ _

/-- **The events of two runs agree, as far as both of them go.** -/
theorem trace_agree (inv : σ → Prop)
    (preserved : ∀ s label next, inv s → step s label = some next → inv next)
    (unique : ∀ s label label' next next', inv s → step s label = some next → step s label' = some next' →
      label = label')
    {s final final' : σ} {labels labels' : List α} (holds : inv s) (run : exec step s labels = some final)
    (run' : exec step s labels' = some final') :
    trace step event s labels <+: trace step event s labels' ∨
      trace step event s labels' <+: trace step event s labels := by
  rcases exec_agree inv preserved unique holds run run' with shorter | longer
  · exact Or.inl (trace_grows shorter run')
  · exact Or.inr (trace_grows longer run)

end Agree

end MinSmt.Library
