/-
**Who goes on for the waiters of a semaphore, and gives that up when it blocks itself** (`satisfyingSem`).

Under bit `0x02` of the policy a thread that posts a semaphore keeps the turn while threads wait on it. The
loops of `semWait` and `semTimedWait` mean to end that before they wait, with a statement
`satisfyingSem == NULL;` that compares instead.

* `Waives` — no thread that waits on a semaphore has the privilege.
* `Unprivileged` — the step does not call a semaphore that blocks with the privilege.
* **`waives_iff`** — the first holds throughout a run exactly when the second holds along it; then a thread
  that goes on in one of the loops chooses its strategy without the privilege.
* `poster_waits_privileged` — a run in which a poster waits with the privilege.
-/

import MinSmt.Runtime.Waiters

namespace MinSmt

open MinSmt.Library

/-- The semaphore that a wrapper is about to wait on, when it begins. -/
def Stage.semaphore : Stage → Option Nat
  | .called (.semWait sem) => some sem
  | .called (.semTimedWait sem _ _) => some sem
  | _ => none

/-! ### The turns that end in a wait on a semaphore -/

section Turns

variable {σ : Type} {S : Serializer σ} {o : Options} {tid : Tid} {e : Env σ} {s : Nat}

/-- A loop that waits has not got what it tried for, and has written no variable of its thread. -/
theorem enter_wait {loop : Loop} {chan : Option Chan} {timeout : Nat} {next : Stage}
    (waits : (loop.enter o tid e).2 = .wait chan timeout next) :
    loop.attempt tid e.shared = none ∧ (loop.enter o tid e).1.self = e.self := by
  cases got : loop.attempt tid e.shared with
  | some shared =>
    rw [Loop.enter_of_some got, Loop.leave_finish] at waits
    cases waits
  | none =>
    refine ⟨rfl, ?_⟩
    rw [Loop.enter_of_none got]

theorem sem_of_attempt {loop : Loop} (isSem : loop.chan = .sem s) :
    loop.attempt tid e.shared = none ↔ e.shared.sem s = 0 := by
  have semTrywait : e.shared.semTrywait s = none ↔ e.shared.sem s = 0 := by
    unfold Shared.semTrywait
    split
    · rename_i zero
      exact iff_of_true rfl zero
    · rename_i value more
      exact iff_of_false nofun (by rw [more]; exact Nat.succ_ne_zero value)
  cases loop with
  | semWait _ =>
    cases isSem
    exact semTrywait
  | semTimedWait _ _ =>
    cases isSem
    exact semTrywait
  | _ => cases isSem

/-- **A turn that ends in a wait on a semaphore** writes no variable of its thread; the wrapper has begun on
a semaphore that blocks, or it has waited there before. -/
theorem turn_of_semWait {stage : Stage} {timeout : Nat} {next : Stage}
    (waits : (turn S o tid e stage).2 = .wait (some (.sem s)) timeout next) :
    (turn S o tid e stage).1.self = e.self ∧
      (stage.semaphore = some s ∧ e.shared.sem s = 0 ∨ ∃ loop, stage = .retry loop ∧ loop.chan = .sem s) := by
  have awaits : stage.awaits = some (.sem s) := by
    have waitsOn := @turn_waitsOn _ S o tid e stage
    rw [waits] at waitsOn
    exact waitsOn.symm
  have began : ∀ loop : Loop, loop.chan = .sem s →
      (loop.enter o tid e).2 = .wait (some (.sem s)) timeout next →
      (loop.enter o tid e).1.self = e.self ∧ e.shared.sem s = 0 := fun loop isSem waits =>
    ⟨(enter_wait waits).2, (sem_of_attempt isSem).mp (enter_wait waits).1⟩
  cases stage with
  | called call =>
    cases call with
    | semWait sem =>
      cases awaits
      obtain ⟨self, zero⟩ := began (.semWait s) rfl waits
      exact ⟨self, Or.inl ⟨rfl, zero⟩⟩
    | semTimedWait sem cur abstime =>
      cases awaits
      revert waits
      show (semTimedWait S o tid e s cur abstime).2 = _ →
        (semTimedWait S o tid e s cur abstime).1.self = e.self ∧ _
      unfold semTimedWait
      split
      · intro waits
        obtain ⟨self, zero⟩ := began (.semWait s) rfl waits
        exact ⟨self, Or.inl ⟨rfl, zero⟩⟩
      · split
        · intro waits
          obtain ⟨self, zero⟩ := began (.semTimedWait s _) rfl waits
          exact ⟨self, Or.inl ⟨rfl, zero⟩⟩
        · exact fun waits => nomatch waits
    | _ => cases awaits
  | retry loop =>
    have resumed : turn S o tid e (.retry loop) = loop.enter o tid e := Loop.resume_eq_enter e loop
    rw [resumed] at waits ⊢
    exact ⟨(enter_wait waits).2, Or.inr ⟨loop, rfl, Option.some.inj awaits⟩⟩
  | _ => cases awaits

/-- A wrapper that begins on a semaphore that blocks waits there, or the process ends. -/
theorem waits_of_semaphore {stage : Stage} (isSem : stage.semaphore = some s) (zero : e.shared.sem s = 0)
    (goes : (turn S o tid e stage).2 ≠ .exit) :
    ∃ timeout next, (turn S o tid e stage).2 = .wait (some (.sem s)) timeout next := by
  have blocks : ∀ loop : Loop, loop.chan = .sem s →
      ∃ timeout next, (loop.enter o tid e).2 = .wait (some (.sem s)) timeout next := by
    intro loop isChan
    rw [Loop.enter_of_none ((sem_of_attempt isChan).mpr zero), isChan]
    exact ⟨_, _, rfl⟩
  cases stage with
  | called call =>
    cases call with
    | semWait sem =>
      cases isSem
      exact blocks (.semWait s) rfl
    | semTimedWait sem cur abstime =>
      cases isSem
      revert goes
      show (semTimedWait S o tid e s cur abstime).2 ≠ _ →
        ∃ timeout next, (semTimedWait S o tid e s cur abstime).2 = _
      unfold semTimedWait
      split
      · exact fun _ => blocks (.semWait s) rfl
      · split
        · exact fun _ => blocks (.semTimedWait s _) rfl
        · exact fun goes => absurd rfl goes
    | _ => cases isSem
  | _ => cases isSem

/-- A loop on a semaphore writes no variable of its thread. -/
theorem turn_of_semLoop {loop : Loop} (isSem : loop.chan = .sem s) :
    (turn S o tid e (.retry loop)).1.self = e.self := by
  have resumed : turn S o tid e (.retry loop) = loop.enter o tid e := Loop.resume_eq_enter e loop
  rw [resumed]
  unfold Loop.enter
  split
  · cases loop with
    | semWait _ => rfl
    | semTimedWait _ _ => rfl
    | _ => cases isSem
  · rfl

end Turns

namespace Recorder

variable {o : Options} {r r' : Recorder} {tid : Tid} {stage : Stage}

/-- **No thread that waits on a semaphore has the privilege.** -/
def Waives (r : Recorder) : Prop :=
  ∀ sem, ∀ t ∈ r.core.waiters (.sem sem), (r.locals t).satisfyingSem = none

/-- **The step does not begin to wait with the privilege**: a wrapper that begins on a semaphore with value
zero is called without it. -/
def Unprivileged (r : Recorder) (label : Tid × Move) : Prop :=
  ∀ stage ∈ r.stageOf label.1 label.2, ∀ sem ∈ stage.semaphore, r.shared.sem sem = 0 →
    (r.locals label.1).satisfyingSem = none

instance (r : Recorder) (label : Tid × Move) : Decidable (Unprivileged r label) :=
  inferInstanceAs (Decidable (∀ _ ∈ _, ∀ _ ∈ _, _ → _))

/-- What holds as long as nobody began to wait with the privilege. -/
structure Waived (r : Recorder) : Prop where
  sound : Sound r.core r.spot
  inLoop : ∀ t loop sem, r.spot t = .inside (.retry loop) → loop.chan = .sem sem →
    (r.locals t).satisfyingSem = none

/-- A thread that waits on a semaphore is in one of the loops. -/
theorem loop_of_waits {t : Tid} {sem : Nat} (sound : Sound r.core r.spot)
    (waits : t ∈ r.core.waiters (.sem sem)) :
    ∃ loop, r.spot t = .inside (.retry loop) ∧ loop.chan = .sem sem := by
  obtain ⟨inside, isSem⟩ := mem_waiters.mp waits
  have parked := sound.parked t inside
  cases there : r.spot t with
  | inside stage =>
    rw [there] at parked
    have isChan : stage.chan = some (.sem sem) := parked.2.1.symm.trans isSem
    cases stage with
    | retry loop => exact ⟨loop, rfl, Option.some.inj isChan⟩
    | _ => cases isChan
  | outside =>
    rw [there] at parked
    rw [parked.1] at isSem
    cases isSem
  | returning =>
    rw [there] at parked
    exact parked.elim

theorem Waived.waives (waived : Waived r) : Waives r := by
  intro sem t waits
  obtain ⟨loop, there, isSem⟩ := loop_of_waits waived.sound waits
  exact waived.inLoop t loop sem there isSem

/-- **A step that does not begin to wait with the privilege.** -/
theorem waived_step {label : Tid × Move} (waived : Waived r) (fine : Unprivileged r label)
    (stepped : r.step o label = some r') : Waived r' := by
  refine ⟨sound_step waived.sound stepped, fun t loop sem there isSem => ?_⟩
  obtain ⟨tid, move⟩ := label
  have nodup := waived.sound.nodup
  by_cases same : t = tid
  · subst same
    rcases step_cases nodup stepped with ⟨stage, isStage, took⟩ | ⟨-, -, rfl⟩ | ⟨-, -, -, rfl⟩ |
      ⟨-, -, rfl⟩
    · rcases took_inside took there with ⟨-, isChan, timeout, how⟩ | ⟨barrier, -, isLast⟩
      · have awaits : stage.awaits = some (.sem sem) :=
          isChan.symm.trans (congrArg some isSem : (Stage.retry loop).chan = some (.sem sem))
        rw [awaits] at how
        obtain ⟨self, began | ⟨before, isRetry, isChan⟩⟩ := turn_of_semWait how
        · obtain ⟨yieldThis, locals⟩ := took_locals took
          rw [locals]
          exact (congrArg Local.satisfyingSem self).trans (fine stage isStage sem began.1 began.2)
        · obtain ⟨yieldThis, locals⟩ := took_locals took
          rw [locals]
          refine (congrArg Local.satisfyingSem self).trans (waived.inLoop t before sem ?_ isChan)
          exact isRetry ▸ inside_of_stageOf isStage (by rw [isRetry]; nofun)
      · cases isLast
    · have left : Function.update r.spot t .outside t = .outside := Function.update_self _ _ _
      cases left.symm.trans there
    · exact waived.inLoop t loop sem there isSem
    · exact waived.inLoop t loop sem there isSem
  · rw [step_locals nodup stepped same]
    exact waived.inLoop t loop sem (step_spot nodup stepped same ▸ there) isSem

/-- A thread that begins to wait keeps the privilege. -/
theorem unprivileged_of_waives {label : Tid × Move} (waived : Waived r)
    (stepped : r.step o label = some r') (waives : Waives r') : Unprivileged r label := by
  intro stage isStage sem isSem zero
  obtain ⟨tid, move⟩ := label
  have took := took_of_step waived.sound.nodup stepped isStage
  obtain ⟨timeout, next, how⟩ := waits_of_semaphore isSem zero took.goes
  obtain ⟨c, ops, -, givenUp⟩ := took.turned
  have waits : tid ∈ r'.core.waiters (.sem sem) := by
    rw [givenUp.waiters fun inside => took.ready.1 (ops.kept.subset inside)]
    refine List.mem_append_right _ ?_
    have joins : (r.turnOf o tid stage).2.joins (.sem sem) tid = [tid] :=
      (congrArg (Finish.joins (.sem sem) tid) how).trans (if_pos rfl)
    rw [joins]
    exact List.mem_singleton_self tid
  obtain ⟨yieldThis, locals⟩ := took_locals took
  have after := waives sem tid waits
  rw [locals] at after
  exact (congrArg Local.satisfyingSem (turn_of_semWait how).1).symm.trans after

/-- **No thread waits on a semaphore with the privilege throughout a run exactly when none begins to**; and
then a thread that goes on in one of the loops chooses its strategy without the privilege. -/
theorem waives_iff (o : Options) (mainTh : PthreadT) (shared : Shared) (labels : List (Tid × Move))
    (r : Recorder) (ran : exec (step o) (init o mainTh shared) labels = some r) :
    (Throughout (step o) Waives (init o mainTh shared) labels ↔
      Along (step o) Unprivileged (init o mainTh shared) labels) ∧
    (Along (step o) Unprivileged (init o mainTh shared) labels →
      ∀ tid loop sem, r.stageOf tid .resume = some (.retry loop) → loop.chan = .sem sem →
        (r.turnOf o tid (.retry loop)).1.self.satisfyingSem = none) := by
  have starts : Waived (init o mainTh shared) :=
    ⟨sound_run (exec_nil _), fun t loop sem there => (nomatch there)⟩
  refine ⟨?_, fun fine tid loop sem isStage isSem => ?_⟩
  · refine throughout_iff_along Waived (fun s waived => waived.waives)
      (fun s label next waived fine stepped => waived_step waived fine stepped) ?_ starts ran
    exact fun s label next waived stepped =>
      ⟨unprivileged_of_waives waived stepped, fun fine => (waived_step waived fine stepped).waives⟩
  · have waived : Waived r := exec_invariant Waived
      (fun s label next waived fine stepped => waived_step waived fine stepped) starts fine ran
    refine (congrArg Local.satisfyingSem (turn_of_semLoop isSem)).trans ?_
    exact waived.inLoop tid loop sem (inside_of_stageOf isStage nofun) isSem

/-- Threads `2` and `3` wait on the semaphore `1`, and the main thread posts it. -/
def privilegedPoster : List (Tid × Move) :=
  quick 0 (.createIdle 101) ++ quick 0 (.create 102 3 0) ++ quick 0 (.create 103 3 0) ++
  [(2, .call (.semWait 1)), (3, .call (.semWait 1))] ++ quick 0 (.semPost 1)

/-- Thread `2` goes on in its loop without the privilege. -/
theorem waives_iff_privilegedPoster :
    ∃ r, exec (step { schedulingPolicy := 2 }) (init { schedulingPolicy := 2 } 100 {}) privilegedPoster =
        some r ∧
      (r.locals 0).satisfyingSem = some 1 ∧ r.core.waiters (.sem 1) = [3] ∧
      Throughout (step { schedulingPolicy := 2 }) Waives (init { schedulingPolicy := 2 } 100 {})
        privilegedPoster ∧
      (r.turnOf { schedulingPolicy := 2 } 2 (.retry (.semWait 1))).1.self.satisfyingSem = none := by
  have found : (exec (step { schedulingPolicy := 2 }) (init { schedulingPolicy := 2 } 100 {})
      privilegedPoster).any (fun r => decide ((r.locals 0).satisfyingSem = some 1 ∧
        r.core.waiters (.sem 1) = [3] ∧ r.stageOf 2 .resume = some (.retry (.semWait 1)))) = true := by
    decide +kernel
  have fine : Along (step { schedulingPolicy := 2 }) Unprivileged (init { schedulingPolicy := 2 } 100 {})
      privilegedPoster := by
    decide +kernel
  obtain ⟨r, ran, here⟩ := exec_of_any found
  obtain ⟨privileged, waiters, isStage⟩ := of_decide_eq_true here
  have done := waives_iff { schedulingPolicy := 2 } 100 {} privilegedPoster r ran
  exact ⟨r, ran, privileged, waiters, done.1.mpr fine, done.2 fine 2 _ 1 isStage rfl⟩

/-- **A poster waits with the privilege**: the main thread goes on for the semaphore `1`, and waits on the
semaphore `5`. -/
theorem poster_waits_privileged :
    ∃ r, exec (step { schedulingPolicy := 2 }) (init { schedulingPolicy := 2 } 100 {})
        (privilegedPoster ++ [(0, .call (.semWait 5))]) = some r ∧
      0 ∈ r.core.waiters (.sem 5) ∧ (r.locals 0).satisfyingSem = some 1 ∧ ¬ Waives r := by
  have found : (exec (step { schedulingPolicy := 2 }) (init { schedulingPolicy := 2 } 100 {})
      (privilegedPoster ++ [(0, .call (.semWait 5))])).any (fun r =>
        decide (0 ∈ r.core.waiters (.sem 5) ∧ (r.locals 0).satisfyingSem = some 1)) = true := by
    decide +kernel
  obtain ⟨r, ran, here⟩ := exec_of_any found
  obtain ⟨waits, privileged⟩ := of_decide_eq_true here
  refine ⟨r, ran, waits, privileged, fun waives => ?_⟩
  rw [waives 5 0 waits] at privileged
  cases privileged

end Recorder

end MinSmt
