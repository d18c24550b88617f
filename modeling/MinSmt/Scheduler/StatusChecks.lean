/-
**The assertions on the status of a thread** (one run queue).

`next`, `putTurn`, `interProStart`, `interProEnd` and `nextRunnable` assert what they expect of the
status of the element they look at. The library is built with `NDEBUG`, so nothing checks this when it
runs; here each assertion is a proposition about the step that reaches it.

* `Sys.StatusChecks o s tid action` — the assertions that the step reaches.
* **`status_checks_hold`** — along every run with one run queue they hold, and a thread that has been
  granted the turn is running.
-/

import MinSmt.Scheduler.TurnToken
import MinSmt.Scheduler.Conservation

namespace MinSmt

open MinSmt.Library Sched Sys

/-- **The assertions on thread statuses that a step reaches.** The last case is the one of `next`, when the
caller's element has not been popped yet. -/
def Sys.StatusChecks (o : Options) (s : Sys) (tid : Tid) (action : Action) : Prop :=
  match s.pc tid, action with
  | .turn false, .putTurn _ => (s.sched.elems tid).status = .runningReg
  | .turn false, .idleCondWait order =>
    (s.sched.incTurnCount o order).runq.numElements < 2 →
      ((s.sched.incTurnCount o order).elems tid).status = .runningReg
  | .trying none, .tryElem => (s.sched.elems tid).status = .runningReg
  | .leaving .picking _ _ _, .nextRunnable =>
    ∀ head, (s.sched.elems head).status ≠ .interProStop →
      (s.sched.elems head).status = .runnable ∨ (s.sched.elems head).status = .runningReg ∨
        (s.sched.elems head).status = .runningInterPro
  | .inCall, .interProEnd => (s.sched.elems tid).status = .interProStop
  | _, .interProStart =>
    (s.sched.elems tid).status = .runnable ∨ (s.sched.elems tid).status = .runningReg
  | _, action => ∀ sched, s.atPop o tid action = some sched → Granted (sched.elems tid).status

section Checks

variable {o : Options} {scope : Scope} {s s' : Sys} {runq hp : List Tid} {holder : Option Tid}
  {tid : Tid} (rr : o.RoundRobin)
include rr

theorem incTurnCount_status {late : List Tid} {sched : Sched} (layout : Layout o late sched runq hp)
    (safe : (sched.tickAndFire o).NoLone) {order : List Tid}
    (perm : order.Perm sched.interProWakeupTids) (t : Tid) :
    ((sched.incTurnCount o order).elems t).status = (sched.elems t).status := by
  obtain ⟨⟨_, _, _, _, _, quiet⟩, _⟩ := layout.incTurnCount rr.nonneg safe perm
  exact quiet.status t

theorem finish_status {sched : Sched} (layout : Layout o [] sched runq hp) (t : Tid) :
    ((sched.finish o tid).elems t).status = (sched.elems t).status := by
  obtain ⟨_, _, _, _, layout₁, quiet₁⟩ := layout.signalJoiner rr.nonneg tid
  obtain ⟨_, quiet₂⟩ := layout₁.checkNonDetBound rr.nonneg
  unfold Sched.finish
  simp only [checkNonDetBound_tm]
  exact (quiet₂.status t).trans (quiet₁.status t)

omit rr in
/-- Only a thread that has the turn and is not inside `next` pops its own element. -/
theorem inTurn_of_atPop {action : Action} {sched : Sched} (pops : s.atPop o tid action = some sched) :
    (s.pc tid).inTurn = true ∧ (s.pc tid).inNext = false := by
  unfold Sys.atPop at pops
  split at pops <;> first | (rename_i here; rw [here]; exact ⟨rfl, rfl⟩) | cases pops

/-- **At a pop of `next` the caller is running.** -/
theorem atPop_status (inv : Inv o scope s runq hp holder) {action : Action}
    (safe : QueueSafe o s (tid, action)) (stepped : s.step o (tid, action) = some s')
    (notPut : ∀ strategy, s.pc tid = .turn false → action ≠ .putTurn strategy)
    (notIdle : ∀ order, s.pc tid = .turn false → action ≠ .idleCondWait order)
    (notTried : s.pc tid = .trying none → action ≠ .tryElem) {sched : Sched}
    (pops : s.atPop o tid action = some sched) : Granted (sched.elems tid).status := by
  have granted : Granted (s.sched.elems tid).status := by
    obtain ⟨inTurn, notNext⟩ := inTurn_of_atPop pops
    exact (inv.front tid (inv.holder_eq inTurn) notNext).2
  replace stepped := Sys.threadStep_of_step stepped
  unfold Sys.atPop at pops
  split at pops
  · rename_i here
    exact absurd rfl (notPut _ here)
  · rename_i here
    cases pops
    have perm := order_perm here rfl stepped
    obtain ⟨⟨_, _, _, _, layout, _⟩, _⟩ := inv.layout.incTurnCount rr.nonneg safe perm
    rw [finish_status rr layout, incTurnCount_status rr inv.layout safe perm]
    exact granted
  · rename_i here
    cases pops
    rw [enterWaitq_eq rr.nonneg]
    show Granted ((s.sched.incTurnCount o _).elems tid).status
    rw [incTurnCount_status rr inv.layout safe (order_perm here rfl stepped)]
    exact granted
  · rename_i here
    cases pops
    rw [enterWaitq_eq rr.nonneg]
    show Granted ((s.sched.incTurnCount o _).elems tid).status
    rw [incTurnCount_status rr inv.layout safe (order_perm here rfl stepped)]
    exact granted
  · rename_i here
    cases pops
    have perm := order_perm here rfl stepped
    rw [← @enterNonDet_wakeups o s.sched tid] at perm
    obtain ⟨layout, quiet⟩ := inv.layout.enterNonDet tid
    rw [incTurnCount_status rr layout safe perm, quiet.status tid]
    exact granted
  · rename_i here
    exact absurd rfl (notIdle _ here)
  · rename_i here
    exact absurd rfl (notTried here)
  · rename_i cur here
    split at pops
    · cases pops
      show Granted ((s.sched.setStatus cur .runningReg).elems tid).status
      by_cases same : tid = cur
      · subst same
        rw [setStatus_self]
        exact Or.inl rfl
      · rw [setStatus_of_ne same]
        exact granted
    · cases pops
  · cases pops

/-- **The assertions hold in a state with the invariant.** -/
theorem statusChecks (inv : Inv o scope s runq hp holder) {action : Action}
    (safe : QueueSafe o s (tid, action)) (stepped : s.step o (tid, action) = some s') :
    s.StatusChecks o tid action := by
  have fits := inv.status tid
  have moves := Sys.threadStep_of_step stepped
  unfold Sys.StatusChecks
  split
  · rename_i here
    rwa [here] at fits
  · rename_i here
    rw [here] at fits
    intro _
    rw [incTurnCount_status rr inv.layout safe (order_perm here rfl moves)]
    exact fits
  · rename_i here
    rwa [here] at fits
  · intro head awake
    cases status : (s.sched.elems head).status with
    | interProStop => exact absurd status awake
    | runnable => exact Or.inl rfl
    | runningReg => exact Or.inr (Or.inl rfl)
    | runningInterPro => exact Or.inr (Or.inr rfl)
  · rename_i here
    rwa [here] at fits
  · cases place : s.pc tid with
    | away => rwa [place] at fits
    | woken => rwa [place] at fits
    | turn blocking => cases blocking <;> simp [Sys.threadStep, Sys.turnStep, place] at moves
    | _ => simp [Sys.threadStep, Sys.leaveStep, place] at moves
  · rename_i _ notPut notIdle notTried _ _
    exact fun sched pops => atPop_status rr inv safe stepped notPut notIdle notTried pops

end Checks

/-- **The assertions on thread statuses never fail**, and whoever has been granted the turn is running. -/
theorem status_checks_hold (o : Options) (rr : o.RoundRobin) (off : o.highPriority = false)
    (mainTh : PthreadT) (labels : List (Tid × Action)) (s : Sys)
    (ran : exec (Sys.step o) (Sys.init o mainTh) labels = some s) :
    (∀ tid action s', s.step o (tid, action) = some s' → s.StatusChecks o tid action) ∧
    (∀ t next, (s.pc t).grantee = some next → Granted (s.sched.elems next).status) ∧
    ∀ t, 0 < (s.sched.waits t).posts o ∨ ((s.pc t).inTurn = true ∧ (s.pc t).inNext = false) →
      Granted (s.sched.elems t).status := by
  have holds : Inv.Holds o ⟨False, False⟩ s := by
    refine Inv.run rr (fun s label holds _ => ?_) (along_of_labels (fun _ _ => trivial) _) ran
    obtain ⟨_, _, _, inv⟩ := holds
    exact ⟨queueSafe_of_off rr inv off label, False.elim, False.elim⟩
  obtain ⟨runq, hp, holder, inv⟩ := holds
  refine ⟨fun tid action s' stepped => ?_, fun t next chosen => ?_, fun t owed => ?_⟩
  · exact statusChecks rr inv (queueSafe_of_off rr inv off (tid, action)) stepped
  · have inTurn : (s.pc t).inTurn = true := by
      by_contra outTurn
      rw [Inv.grantee_of_not_inTurn (Bool.eq_false_iff.mpr outTurn)] at chosen
      cases chosen
    exact (inv.next t next (inv.holder_eq inTurn) chosen).2
  · rcases owed with posted | ⟨inTurn, notNext⟩
    · have isHolder := inv.token.holder_of_posts posted
      have outTurn : (s.pc t).inTurn = false := by
        have one := inv.token t
        rw [if_pos isHolder] at one
        cases inTurn : (s.pc t).inTurn with
        | false => rfl
        | true =>
          rw [inTurn, Bool.toNat_true] at one
          omega
      refine (inv.front t isHolder ?_).2
      cases place : s.pc t with
      | leaving phase atThreadEnd strategy after =>
        rw [place] at outTurn
        cases outTurn
      | _ => rfl
    · exact (inv.front t (inv.holder_eq inTurn) notNext).2

/-- The main thread returns from its external call: it was stopped. -/
theorem status_checks_hold_callAndReturn :
    ∃ s s', exec (Sys.step {}) (Sys.init {} 100) (callAndReturn.take 13) = some s ∧
      s.step {} (0, .interProEnd) = some s' ∧ (s.sched.elems 0).status = .interProStop := by
  have found : (exec (Sys.step {}) (Sys.init {} 100) (callAndReturn.take 13)).any
      (fun s => decide (s.pc 0 = .inCall) && (s.step {} (0, .interProEnd)).isSome) = true := by
    decide +kernel
  obtain ⟨s, ran, here⟩ := exec_of_any found
  obtain ⟨inCall, enabled⟩ := Bool.and_eq_true_iff.mp here
  obtain ⟨s', stepped⟩ := Option.isSome_iff_exists.mp enabled
  obtain ⟨checks, _⟩ := status_checks_hold {} (by decide) (by decide) 100 (callAndReturn.take 13) s ran
  have stopped := checks 0 .interProEnd s' stepped
  unfold Sys.StatusChecks at stopped
  rw [of_decide_eq_true inCall] at stopped
  exact ⟨s, s', ran, stepped, stopped⟩

end MinSmt
