/-
**The child of a fork** (`RecorderRT::__fork`, `RRScheduler::childForkReturn`).

`Process` is the scheduler with the two semaphores of the thread creation handshake. In the child,
`__fork` calls `childForkReturn`; the two `sem_init` calls before it are arguments of `assert`, so
with `NDEBUG` they are not made. `Process.forkChild` is what the child is left with.

* `StartsOver` — the child is a process that has just started, up to `turnCount`.
* `PassesToItself` — the child's next `putTurn` removes the child's own element and posts the child.
* **`fork_starts_over_iff`** — the child starts over exactly when the parent had nothing in the fields
  that are not reset: `hp_runq`, the side set, `non_det_thds`, the flags and the semaphores.
* **`fork_keeps_side_set`** — a reachable state of the default policy in which it does not.
-/

import MinSmt.Scheduler.TurnToken

namespace MinSmt

open MinSmt.Library Sched

/-- What a fork copies, as far as the scheduler is concerned. -/
structure Process where
  sched : Sched
  threadBeginSem : Nat := 0
  threadBeginDoneSem : Nat := 0

/-- **The child after `childForkReturn`**, with `NDEBUG`. -/
def Process.forkChild (o : Options) (p : Process) (mainTh : PthreadT) : Process :=
  { p with sched := p.sched.childForkReturn o mainTh }

/-- The queue has no element. -/
def RunQueue.IsEmpty (q : RunQueue) : Prop :=
  q.head = none ∧ q.tail = none ∧ q.numElements = 0

instance (q : RunQueue) : Decidable q.IsEmpty := inferInstanceAs (Decidable (_ ∧ _ ∧ _))

/-- **The process has just started**, up to `turnCount`. -/
structure StartsOver (mainTh : PthreadT) (p : Process) : Prop where
  main : p.sched.tm.getTid mainTh = some mainThreadTid
  alone : ∀ t, p.sched.Live t ↔ t = mainThreadTid
  runq : p.sched.runq.Holds p.sched.elems [mainThreadTid]
  running : (p.sched.elems mainThreadTid).status = .runningReg
  hpRunq : p.sched.hpRunq.IsEmpty
  waitq : p.sched.waitq = []
  side : p.sched.interProWakeupTids = []
  nonDet : p.sched.nonDetThds.tids = []
  flags : ∀ t, (p.sched.waits t).wokenUpFromHpQueueFlag = false
  beginSem : p.threadBeginSem = 0
  doneSem : p.threadBeginDoneSem = 0

/-- The fields that no part of the reset writes. -/
structure NothingLeft (p : Process) : Prop where
  hpRunq : p.sched.hpRunq.IsEmpty
  side : p.sched.interProWakeupTids = []
  nonDet : p.sched.nonDetThds.tids = []
  flags : ∀ t, (p.sched.waits t).wokenUpFromHpQueueFlag = false
  beginSem : p.threadBeginSem = 0
  doneSem : p.threadBeginDoneSem = 0

/-- **The next `putTurn` of the main thread**, at the end of the wrapper: it removes the thread's own
element, and `nextRunnable` chooses the thread again. `CURRENT_ROLE` is used with roles only. -/
def PassesToItself (o : Options) (s : Sched) : Prop :=
  (s.incTurnCount o []).front mainThreadTid = some mainThreadTid ∧
    ∀ strategy idleDone, (strategy = .currentRole → o.wakeamapPlus = true) →
      ∃ s' s'', (s.incTurnCount o []).putTurn o mainThreadTid strategy = some s' ∧
        (s'.checkWakeup o []).nextRunnable o idleDone mainThreadTid false strategy =
          .grant s'' mainThreadTid

/-! ### A thread that is alone -/

/-- The main thread is alone in `runq`, and nothing else is anywhere. -/
structure Alone (o : Options) (s : Sched) : Prop where
  linked : Linked s.elems s.runq s.hpRunq [mainThreadTid] []
  waitq : s.waitq = []
  side : s.interProWakeupTids = []
  nonDet : s.nonDetThds.tids = []
  flag : (s.waits mainThreadTid).wokenUpFromHpQueueFlag = false
  role : o.wakeamapPlus = true → (s.tm.tToR mainThreadTid).isSome = true

namespace Alone

variable {o : Options} {s : Sched}

theorem front (alone : Alone o s) : s.front mainThreadTid = some mainThreadTid := by
  unfold Sched.front
  rw [alone.flag]
  exact alone.linked.queue.head_eq

/-- `check_wakeup` has nothing to do. -/
theorem checkWakeup (alone : Alone o s) : Alone o (s.checkWakeup o []) ∧
    (s.checkWakeup o []).elems = s.elems := by
  unfold Sched.checkWakeup
  by_cases flagged : s.interProWakeupFlag = true
  · rw [if_pos flagged]
    exact ⟨⟨alone.linked, alone.waitq, rfl, alone.nonDet, alone.flag, alone.role⟩, rfl⟩
  · rw [if_neg flagged]
    exact ⟨alone, rfl⟩

/-- No thread times out. -/
theorem incTurnCount (alone : Alone o s) : Alone o (s.incTurnCount o []) := by
  have ticked : Alone o (s.tickAndFire o) := by
    unfold Sched.tickAndFire Sched.fireTimeouts Core.fireTimeouts Core.pass
    simp only [show s.toCore.tick.waitq = [] from alone.waitq]
    exact ⟨alone.linked, rfl, alone.side, alone.nonDet, alone.flag, alone.role⟩
  exact ticked.checkWakeup.1

/-- The thread takes its element off and queues it again. -/
theorem requeue (alone : Alone o s) (strategy : Strategy) :
    ∃ s', s.requeue mainThreadTid strategy = some s' ∧ Alone o s' ∧
      ∀ t, (s'.elems t).status = (s.elems t).status := by
  obtain ⟨elems, q, popped, linked, status⟩ := alone.linked.popFront
  have own : s.popOwn mainThreadTid = some { s with elems := elems, runq := q } := by
    unfold Sched.popOwn
    rw [alone.flag, if_neg Bool.false_ne_true, Sched.popRunq, popped]
    rfl
  have pushed : Alone o (({ s with elems := elems, runq := q } : Sched).pushRunq mainThreadTid) :=
    ⟨linked.pushBack List.not_mem_nil List.not_mem_nil, alone.waitq, alone.side, alone.nonDet,
      alone.flag, alone.role⟩
  have same : ∀ t, ((({ s with elems := elems, runq := q } : Sched).pushRunq
      mainThreadTid).elems t).status = (s.elems t).status := fun t =>
    (RunQueue.pushBack_status elems q mainThreadTid t).trans (status t)
  cases strategy with
  | currentThread => exact ⟨s, rfl, alone, fun _ => rfl⟩
  | create => exact ⟨s, rfl, alone, fun _ => rfl⟩
  | yield =>
    obtain ⟨elems', q', tids, inserted, linked', perm, _, status'⟩ :=
      linked.insertYield List.not_mem_nil List.not_mem_nil
    rw [List.perm_singleton.mp perm] at linked'
    refine ⟨{ s with elems := elems', runq := q' }, ?_,
      ⟨linked', alone.waitq, alone.side, alone.nonDet, alone.flag, alone.role⟩,
      fun t => (status' t).trans (status t)⟩
    rw [Sched.requeue, own, Option.bind_some, Sched.insertYield, inserted]
    rfl
  | default => exact ⟨_, by rw [Sched.requeue, own]; rfl, pushed, same⟩
  | currentRole => exact ⟨_, by rw [Sched.requeue, own]; rfl, pushed, same⟩

/-- `putTurn` puts the thread back where it was. -/
theorem putTurn (rr : 0 ≤ o.enforceTurnType) (alone : Alone o s) (strategy : Strategy) :
    ∃ s', s.putTurn o mainThreadTid strategy = some s' ∧ Alone o s' ∧
      (s'.elems mainThreadTid).status = .runnable := by
  have ready : Alone o (s.setStatus mainThreadTid .runnable) :=
    ⟨alone.linked.setStatus _ _, alone.waitq, alone.side, alone.nonDet, alone.flag, alone.role⟩
  obtain ⟨s', requeued, alone', status⟩ := ready.requeue strategy
  have unbound : s'.checkNonDetBound o = s' := by
    unfold Sched.checkNonDetBound
    rw [alone'.nonDet]
    cases o.enforceNonDetClockBound <;> rfl
  refine ⟨s', ?_, alone', ?_⟩
  · rw [Sched.putTurn, if_pos rr, requeued, Option.map_some, unbound]
  · rw [status, setStatus_self]

/-- `nextRunnable` chooses the thread. -/
theorem nextRunnable (alone : Alone o s) (ready : (s.elems mainThreadTid).status = .runnable)
    (idleDone : Bool) {strategy : Strategy}
    (roles : strategy = .currentRole → o.wakeamapPlus = true) :
    ∃ s', s.nextRunnable o idleDone mainThreadTid false strategy = .grant s' mainThreadTid := by
  have notHp : ¬ FromHpRunq o s mainThreadTid strategy := fun fromHp => by
    have used := fromHp.2.1
    rw [alone.linked.second.empty_iff.mpr rfl] at used
    cases used
  have some : s.runq.empty = false := by
    by_contra none
    exact List.cons_ne_nil _ _ (alone.linked.queue.empty_iff.mp (by simpa using none))
  have isHead : s.runq.head = Option.some mainThreadTid := alone.linked.queue.head_eq
  have awake : (s.elems mainThreadTid).status ≠ .interProStop := by
    rw [ready]
    decide
  have byRunq : s.pickRunq o strategy = .grant (s.grantHead mainThreadTid) mainThreadTid := by
    unfold Sched.pickRunq
    simp only [isHead, if_neg awake]
  refine ⟨s.grantHead mainThreadTid, ?_⟩
  unfold Sched.nextRunnable
  rw [if_neg notHp]
  by_cases byRole : strategy = .currentRole
  · rw [if_pos ⟨byRole, some⟩]
    obtain ⟨role, isRole⟩ := Option.isSome_iff_exists.mp (alone.role (roles byRole))
    unfold Sched.pickRole
    simp only [isRole, isHead, if_neg awake, if_pos]
  · rw [if_neg fun both => byRole both.1, some, if_neg Bool.false_ne_true, if_neg, byRunq]
    exact fun idle => absurd idle.2.2.1 (by decide)

theorem passesToItself (rr : 0 ≤ o.enforceTurnType) (alone : Alone o s) : PassesToItself o s := by
  refine ⟨alone.incTurnCount.front, fun strategy idleDone roles => ?_⟩
  obtain ⟨s', put, alone', ready⟩ := alone.incTurnCount.putTurn rr strategy
  obtain ⟨alone'', same⟩ := alone'.checkWakeup
  obtain ⟨s'', chosen⟩ := alone''.nextRunnable (by rw [same]; exact ready) idleDone roles
  exact ⟨s', s'', put, chosen⟩

end Alone

/-! ### The child -/

section Child

variable {o : Options} {p : Process} {mainTh : PthreadT}

/-- What `childForkReturn` does write. -/
theorem childForkReturn_runq (s : Sched) (empty : s.hpRunq.IsEmpty) :
    Linked (s.childForkReturn o mainTh).elems (s.childForkReturn o mainTh).runq
      (s.childForkReturn o mainTh).hpRunq [mainThreadTid] [] := by
  have bare : Linked (fun _ => {}) {} s.hpRunq [] [] :=
    ⟨⟨IsQueue.empty, rfl⟩, ⟨by rw [empty.1, empty.2.1]; exact IsQueue.empty, empty.2.2⟩,
      fun _ _ => List.not_mem_nil, fun _ _ _ => ⟨rfl, rfl⟩⟩
  exact (bare.setStatus mainThreadTid .runningReg).pushBack List.not_mem_nil List.not_mem_nil

end Child

/-- Thread `1` comes back from an external call while the main thread holds the turn. -/
def backBeforeFork : List (Tid × Action) :=
  [(0, .getTurn), (0, .gotTurn), (0, .create 101 7), (0, .putTurn .default),
    (0, .checkWakeup []), (0, .nextRunnable), (0, .post), (0, .getTurn),
    (1, .getTurn), (1, .gotTurn), (1, .putTurn .default), (1, .checkWakeup []), (1, .nextRunnable),
    (1, .post), (0, .gotTurn), (1, .interProStart), (1, .interProEnd), (1, .wakeup)]

end MinSmt
