/-
**The turn is one token** (runs without external calls and non-det regions).

* `Sys.atPop o s tid action` — the scheduler at the `pop_front` that the step executes in `putTurn` or
  in `next`. The pops of `nextRunnable` are not among them: it rotates the heads of other roles.
* `queueSafe_of_internal` — without external calls no step meets the situations of `QueueSafe`.
* **`turn_is_one_token`** — at most one thread has the turn or is owed it; that thread is the front of
  the queue its flag names until it takes its own element off; the thread it then chooses is the
  front of its queue; every pop is of the caller's own element; and the turn is lost only when
  `nextRunnable` returned `InvalidTid` or the process was about to exit.
* `front_lost_before_post` — between its own pop and its post the holder is not at the front.
-/

import MinSmt.Scheduler.Steps

namespace MinSmt

open MinSmt.Library Sched Sys

/-- **The scheduler at the `pop_front` of `putTurn` or `next` that this step executes.** -/
def Sys.atPop (o : Options) (s : Sys) (tid : Tid) (action : Action) : Option Sched :=
  match s.pc tid, action with
  | .turn false, .putTurn strategy =>
    if strategy.keeps then none else some (s.sched.setStatus tid .runnable)
  | .turn false, .endThread order => some ((s.sched.incTurnCount o order).finish o tid)
  | .turn false, .wait chan timeout order =>
    some (s.sched.enterWaitq o tid (some chan) timeout order)
  | .turn false, .sleep turns order =>
    some (s.sched.enterWaitq o tid none ((s.sched.getTurnCount + turns) % unsignedMod) order)
  | .turn _, .block order => some ((s.sched.enterNonDet o tid).incTurnCount o order)
  | .turn false, .idleCondWait order =>
    if 2 ≤ (s.sched.incTurnCount o order).runq.numElements then none
    else some ((s.sched.incTurnCount o order).setStatus tid .runnable)
  | .trying none, .tryElem => some (s.sched.setStatus tid .runnable)
  | .trying (some cur), .tryElem =>
    if (s.sched.elems cur).status = .runnable then
      some ((s.sched.setStatus cur .runningReg).enterIdle tid)
    else none
  | _, _ => none

section Internal

variable {o : Options} {scope : Scope} {s s' : Sys} {runq hp : List Tid} {holder : Option Tid}
  {tid : Tid}

/-- Without external calls no step meets the situations that the queues do not survive. -/
theorem queueSafe_of_internal (inv : Inv o scope s runq hp holder) (internal : scope.internal)
    {label : Tid × Action} (home : label.2.internal = true) : QueueSafe o s label := by
  obtain ⟨pcs, noSide⟩ := inv.inside internal
  have noLone : ∀ sched : Sched, sched.interProWakeupTids = [] → sched.NoLone := by
    intro sched empty t inside
    rw [empty] at inside
    exact absurd inside List.not_mem_nil
  have ticked : (s.sched.tickAndFire o).NoLone :=
    noLone _ (tickAndFire_wakeups.trans noSide)
  obtain ⟨tid, action⟩ := label
  unfold QueueSafe
  split
  · exact noLone _ noSide
  · rename_i isBlock
    rw [isBlock] at home
    cases home
  · exact ticked
  · exact ticked
  · exact ticked
  · exact ticked
  · exact ticked
  · intro _ head _ stopped
    have fits := (inv.status head).internal (pcs head)
    rw [stopped] at fits
    rcases fits with isRunnable | isReg
    · cases isRunnable
    · cases isReg
  · trivial

/-! ### The pops of the turn holder -/

/-- The order of `check_wakeup` that an action of the turn holder carries. -/
def Action.order : Action → Option (List Tid)
  | .incTurnCount order => some order
  | .endThread order => some order
  | .wait _ _ order => some order
  | .sleep _ order => some order
  | .block order => some order
  | .idleCondWait order => some order
  | _ => none

/-- `check_wakeup` meets exactly the threads of the side set. -/
theorem order_perm {blocking : Bool} (here : s.pc tid = .turn blocking) {action : Action}
    {order : List Tid} (has : action.order = some order)
    (stepped : s.threadStep o tid action = some s') :
    order.Perm s.sched.interProWakeupTids := by
  unfold Sys.threadStep at stepped
  rw [here] at stepped
  cases blocking with
  | false =>
    cases action with
    | incTurnCount _ | endThread _ | wait _ _ _ | block _ =>
      cases has
      simp only [Sys.turnStep] at stepped
      split at stepped
      · assumption
      · cases stepped
    | sleep _ _ | idleCondWait _ =>
      cases has
      simp only [Sys.turnStep] at stepped
      split at stepped
      · rename_i enabled
        exact enabled.1
      · cases stepped
    | _ => cases has
  | true =>
    cases action with
    | block _ =>
      cases has
      simp only at stepped
      split at stepped
      · assumption
      · cases stepped
    | _ => cases stepped

section Pops

variable (rr : o.RoundRobin)

include rr

theorem incTurnCount_front {late : List Tid} {sched : Sched} (layout : Layout o late sched runq hp)
    (safe : (sched.tickAndFire o).NoLone) {order : List Tid}
    (perm : order.Perm sched.interProWakeupTids) (front : sched.front tid = some tid) :
    (sched.incTurnCount o order).front tid = some tid :=
  (layout.incTurnCount rr.nonneg safe perm).1.front layout front

theorem enterWaitq_front {sched : Sched} (layout : Layout o [] sched runq hp)
    (safe : (sched.tickAndFire o).NoLone) {order : List Tid}
    (perm : order.Perm sched.interProWakeupTids) (front : sched.front tid = some tid)
    (chan : Option Chan) (timeout : Nat) :
    (sched.enterWaitq o tid chan timeout order).front tid = some tid := by
  have counted := incTurnCount_front rr layout safe perm front
  rw [enterWaitq_eq rr.nonneg]
  unfold Sched.front at counted ⊢
  simpa [Core.enqueue] using counted

theorem finish_front {sched : Sched} (layout : Layout o [] sched runq hp)
    (front : sched.front tid = some tid) : (sched.finish o tid).front tid = some tid := by
  have signalled := layout.signalJoiner rr.nonneg tid
  have first := signalled.front layout front
  obtain ⟨runq₁, hp₁, _, _, layout₁, _⟩ := signalled
  obtain ⟨⟨more, layout₂⟩, quiet⟩ := layout₁.checkNonDetBound rr.nonneg
  unfold Sched.finish
  simp only [checkNonDetBound_tm]
  refine layout₂.atFront_iff.mp ?_
  exact (layout₁.atFront_iff.mpr first).mono (List.prefix_append _ _) (List.prefix_refl _)
    (quiet.flag tid)

/-- **Every `pop_front` of `putTurn` and `next` removes the caller's own element.** -/
theorem atPop_front (inv : Inv o scope s runq hp holder) {action : Action}
    (safe : QueueSafe o s (tid, action)) (stepped : s.step o (tid, action) = some s')
    {sched : Sched} (pops : s.atPop o tid action = some sched) : sched.front tid = some tid := by
  replace stepped := Sys.threadStep_of_step stepped
  have own : (s.pc tid).inTurn = true → (s.pc tid).inNext = false →
      s.sched.front tid = some tid := fun inTurn notNext =>
    inv.layout.atFront_iff.mp (inv.turn_front inTurn notNext).1
  have safeTick : (s.sched.tickAndFire o).NoLone → ∀ {order}, action.order = some order →
      s.pc tid = .turn false → (s.sched.incTurnCount o order).front tid = some tid :=
    fun noLone order has here => incTurnCount_front rr inv.layout noLone
      (order_perm here has stepped) (own (by rw [here]; rfl) (by rw [here]; rfl))
  unfold Sys.atPop at pops
  split at pops
  · rename_i here
    split at pops
    · cases pops
    · cases pops
      exact own (by rw [here]; rfl) (by rw [here]; rfl)
  · rename_i here
    cases pops
    obtain ⟨⟨_, _, _, _, layout, _⟩, _⟩ :=
      inv.layout.incTurnCount rr.nonneg safe (order_perm here rfl stepped)
    exact finish_front rr layout (safeTick safe rfl here)
  · rename_i here
    cases pops
    exact enterWaitq_front rr inv.layout safe (order_perm here rfl stepped)
      (own (by rw [here]; rfl) (by rw [here]; rfl)) _ _
  · rename_i here
    cases pops
    exact enterWaitq_front rr inv.layout safe (order_perm here rfl stepped)
      (own (by rw [here]; rfl) (by rw [here]; rfl)) _ _
  · rename_i here
    cases pops
    have perm := order_perm here rfl stepped
    rw [← @enterNonDet_wakeups o s.sched tid] at perm
    refine incTurnCount_front rr (inv.layout.enterNonDet tid).1 safe perm ?_
    refine Eq.trans ?_ (own (by rw [here]; rfl) (by rw [here]; rfl))
    unfold Sched.enterNonDet
    split <;> rfl
  · rename_i here
    split at pops
    · cases pops
    · cases pops
      exact safeTick safe rfl here
  · rename_i here
    cases pops
    exact own (by rw [here]; rfl) (by rw [here]; rfl)
  · rename_i here
    split at pops
    · cases pops
      have front := own (by rw [here]; rfl) (by rw [here]; rfl)
      unfold Sched.front at front ⊢
      simpa [Sched.enterIdle, Core.enqueue, Sched.setStatus] using front
    · cases pops
  · cases pops

end Pops

end Internal

/-! ### Whole runs -/

/-- The thread is inside `next` and has taken its own element off its queue. -/
def Pc.popped (pc : Pc) : Bool := pc.inNext && !pc.keeps

/-- Runs without external calls keep the invariant. -/
theorem internal_run {o : Options} (rr : o.RoundRobin) {mainTh : PthreadT}
    {labels : List (Tid × Action)} (internal : ∀ label ∈ labels, label.2.internal = true) {s : Sys}
    (ran : exec (Sys.step o) (Sys.init o mainTh) labels = some s) :
    Inv.Holds o ⟨False, True⟩ s := by
  refine Inv.run rr (fun s label holds home => ?_) (along_of_labels internal _) ran
  obtain ⟨_, _, _, inv⟩ := holds
  exact ⟨queueSafe_of_internal inv trivial home, False.elim, fun _ => home⟩

/-- **The turn is one token.** -/
theorem turn_is_one_token (o : Options) (rr : o.RoundRobin) (mainTh : PthreadT)
    (labels : List (Tid × Action)) (internal : ∀ label ∈ labels, label.2.internal = true) (s : Sys)
    (ran : exec (Sys.step o) (Sys.init o mainTh) labels = some s) :
    ∃ holder : Option Tid,
      (∀ t, (s.sched.waits t).posts o + (s.pc t).inTurn.toNat =
        if holder = some t then 1 else 0) ∧
      (∀ t, holder = some t → (s.pc t).popped = false → s.sched.front t = some t) ∧
      (∀ t next, holder = some t → (s.pc t).grantee = some next →
        s.sched.front next = some next) ∧
      (∀ t action sched s', action.internal = true → s.step o (t, action) = some s' →
        s.atPop o t action = some sched → sched.front t = some t) ∧
      (holder = none → s.outcome = some .invalidTid ∨
        (s.outcome = some .threadExited ∧ s.idleDone = true)) := by
  obtain ⟨runq, hp, holder, inv⟩ := internal_run rr internal ran
  refine ⟨holder, inv.token, fun t isHolder notPopped => ?_, fun t next isHolder chosen => ?_,
    fun t action sched s' home stepped pops => ?_, inv.lost⟩
  · unfold Pc.popped at notPopped
    cases inside : (s.pc t).inNext with
    | false => exact inv.layout.atFront_iff.mp (inv.front t isHolder inside).1
    | true =>
      rw [inside] at notPopped
      exact inv.kept t (by simpa using notPopped)
  · exact inv.layout.atFront_iff.mp (inv.next t next isHolder chosen).1
  · exact atPop_front rr inv (queueSafe_of_internal inv trivial home) stepped pops

/-- The main thread creates a thread and gives the turn away. -/
def handOver : List (Tid × Action) :=
  [(0, .getTurn), (0, .gotTurn), (0, .create 101 7), (0, .putTurn .default)]

theorem turn_is_one_token_handOver : ∃ s, exec (Sys.step {}) (Sys.init {} 100) handOver = some s ∧
    ∃ holder : Option Tid, ∀ t, (s.sched.waits t).posts {} + (s.pc t).inTurn.toNat =
      if holder = some t then 1 else 0 := by
  refine ⟨_, rfl, ?_⟩
  obtain ⟨holder, one, _⟩ := turn_is_one_token {} (by decide) 100 handOver (by decide) _ rfl
  exact ⟨holder, one⟩

/-- **Between its own pop and its post the holder is not at the front.** -/
theorem front_lost_before_post : (∀ label ∈ handOver, label.2.internal = true) ∧
    ∃ s, exec (Sys.step {}) (Sys.init {} 100) handOver = some s ∧ (s.pc 0).inTurn = true ∧
      (s.sched.waits 0).wokenUpFromHpQueueFlag = false ∧ s.sched.runq.head = some 1 := by
  refine ⟨by decide, _, rfl, ?_, ?_, ?_⟩ <;> decide

end MinSmt
