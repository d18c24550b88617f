/-
**A status that nobody looks at.**

A queued thread that starts an external call changes the status of its own element and nothing else. The
scheduler reads the status of another thread in two places only: a round of `nextRunnable` reads the one of
the head it looks at, and `tryPutTurn` the one of each element it passes. Until then the two processes,
with the call started and without, take the same steps.

* `Sched.veil t status s` — the scheduler with another status of the thread `t`.
* `veil_…` — every operation of another thread does the same under the veil.
* `Sys.Looks` — the step reads the status of `t`.
* **`step_veil`**, `exec_veil` — a step (a run) of the others that does not look at `t` does the same.
-/

import MinSmt.Library.Run
import MinSmt.Scheduler.Invariant

namespace MinSmt

open MinSmt.Library

/-! ### The queues -/

section Queues

variable {t : Tid} {status : ThdStatus} {elems : Elems}

theorem setStatus_apply (tid : Tid) : setStatus elems t status tid =
    if tid = t then { elems tid with status := status } else elems tid := by
  unfold setStatus
  by_cases same : tid = t
  · subst same
    simp
  · simp [same]

/-- A write that neither reads nor writes the status. -/
theorem update_setStatus {write : RunqElem → RunqElem}
    (blind : ∀ e, write { e with status := status } = { write e with status := status }) (tid : Tid) :
    Function.update (setStatus elems t status) tid (write (setStatus elems t status tid)) =
      setStatus (Function.update elems tid (write (elems tid))) t status := by
  funext u
  rw [setStatus_apply u, setStatus_apply tid, Function.update_apply, Function.update_apply]
  by_cases isTid : u = tid
  · subst isTid
    rw [if_pos rfl, if_pos rfl]
    split
    · exact blind _
    · rfl
  · rw [if_neg isTid, if_neg isTid, setStatus_apply]

theorem setStatus_comm {u : Tid} (different : u ≠ t) (status' : ThdStatus) :
    setStatus (setStatus elems t status) u status' = setStatus (setStatus elems u status') t status := by
  unfold setStatus
  rw [Function.update_of_ne different, Function.update_of_ne different.symm,
    Function.update_comm different]

namespace RunQueue

variable (q : RunQueue) (tid : Tid)

theorem pushBack_setStatus : q.pushBack (setStatus elems t status) tid =
    (setStatus (q.pushBack elems tid).1 t status, (q.pushBack elems tid).2) := by
  have first := @update_setStatus t status elems (fun e => { e with prev := q.tail }) (fun _ => rfl) tid
  unfold pushBack
  cases isHead : q.head with
  | none => rfl
  | some head =>
    dsimp only at first ⊢
    rw [first]
    cases isTail : q.tail with
    | none => rfl
    | some last =>
      refine Prod.ext ?_ rfl
      exact @update_setStatus t status _ (fun e => { e with next := some tid }) (fun _ => rfl) last

theorem next_setStatus : (setStatus elems t status tid).next = (elems tid).next := by
  rw [setStatus_apply]
  split <;> rfl

theorem lastYield_setStatus : (setStatus elems t status tid).lastYield = (elems tid).lastYield := by
  rw [setStatus_apply]
  split <;> rfl

theorem popFront_setStatus : q.popFront (setStatus elems t status) =
    (q.popFront elems).map fun r => (setStatus r.1 t status, r.2) := by
  unfold popFront
  cases q.head with
  | none => rfl
  | some head =>
    simp only [Option.map_some, next_setStatus, lastYield_setStatus]
    refine congrArg some (Prod.ext ?_ rfl)
    exact @update_setStatus t status elems
      (fun e => { e with prev := none, next := none, lastYield := false }) (fun _ => rfl) head

theorem insertYieldLoop_setStatus (numYieldElem fuel : Nat) (cur : Tid) (count : Nat) (found : Bool) :
    insertYieldLoop (setStatus elems t status) numYieldElem fuel cur count found =
      insertYieldLoop elems numYieldElem fuel cur count found := by
  induction fuel generalizing cur count found with
  | zero => rfl
  | succ fuel ih =>
    unfold insertYieldLoop
    rw [next_setStatus]
    cases (elems cur).next with
    | none => rfl
    | some next =>
      dsimp only
      rw [lastYield_setStatus, ih, ih]

theorem linkAfter_setStatus (cur : Tid) : linkAfter (setStatus elems t status) cur tid =
    setStatus (linkAfter elems cur tid) t status := by
  unfold linkAfter
  rw [next_setStatus]
  have first := @update_setStatus t status elems (fun e => { e with next := some tid }) (fun _ => rfl) cur
  dsimp only at first ⊢
  rw [first]
  have second := @update_setStatus t status
    (Function.update elems cur { elems cur with next := some tid })
    (fun e => { e with prev := some cur, next := (elems cur).next }) (fun _ => rfl) tid
  dsimp only at second ⊢
  rw [second]
  cases (elems cur).next with
  | none => rfl
  | some next => exact @update_setStatus t status _ (fun e => { e with prev := some tid }) (fun _ => rfl) next

theorem insertYield_setStatus : q.insertYield (setStatus elems t status) tid =
    (q.insertYield elems tid).map fun r => (setStatus r.1 t status, r.2) := by
  have marked : markYielded (setStatus elems t status) tid = setStatus (markYielded elems tid) t status :=
    @update_setStatus t status elems (fun e => { e with lastYield := true }) (fun _ => rfl) tid
  unfold insertYield
  rw [marked]
  cases q.head with
  | none => rfl
  | some head =>
    dsimp only
    rw [lastYield_setStatus, insertYieldLoop_setStatus, Option.map_map]
    refine congrArg (fun f => Option.map f _) (funext fun cur => ?_)
    exact Prod.ext (linkAfter_setStatus tid cur) rfl

theorem isIn_setStatus : q.isIn (setStatus elems t status) tid = q.isIn elems tid := by
  unfold isIn
  rw [setStatus_apply]
  split <;> rfl

end RunQueue

end Queues

/-! ### The operations -/

namespace Sched

/-- The scheduler with another status of the thread `t`. -/
def veil (t : Tid) (status : ThdStatus) (s : Sched) : Sched := s.setStatus t status

section Veil

variable {o : Options} {t : Tid} {status : ThdStatus} {s : Sched} {tid : Tid}

theorem pushRunq_veil : (s.veil t status).pushRunq tid = (s.pushRunq tid).veil t status := by
  unfold pushRunq veil setStatus
  simp only [RunQueue.pushBack_setStatus]

theorem pushHpRunq_veil : (s.veil t status).pushHpRunq tid = (s.pushHpRunq tid).veil t status := by
  unfold pushHpRunq veil setStatus
  simp only [RunQueue.pushBack_setStatus]

theorem insertYield_veil :
    (s.veil t status).insertYield tid = (s.insertYield tid).map (veil t status) := by
  unfold insertYield veil setStatus
  simp only [RunQueue.insertYield_setStatus, Option.map_map]
  rfl

theorem popRunq_veil : (s.veil t status).popRunq = s.popRunq.map (veil t status) := by
  unfold popRunq veil setStatus
  simp only [RunQueue.popFront_setStatus, Option.map_map]
  rfl

theorem popHpRunq_veil : (s.veil t status).popHpRunq = s.popHpRunq.map (veil t status) := by
  unfold popHpRunq veil setStatus
  simp only [RunQueue.popFront_setStatus, Option.map_map]
  rfl

theorem setStatus_veil (different : tid ≠ t) (status' : ThdStatus) :
    (s.veil t status).setStatus tid status' = (s.setStatus tid status').veil t status := by
  unfold veil setStatus
  simp only [setStatus_comm different]

/-- A loop over threads. -/
theorem foldl_veil {f : Sched → Tid → Sched}
    (each : ∀ s tid, f (veil t status s) tid = (f s tid).veil t status) (tids : List Tid) (s : Sched) :
    tids.foldl f (s.veil t status) = (tids.foldl f s).veil t status := by
  induction tids generalizing s with
  | nil => rfl
  | cons tid tids ih => rw [List.foldl_cons, each, ih, List.foldl_cons]

theorem makeRunnable_veil (s : Sched) (tid : Tid) :
    (s.veil t status).makeRunnable o tid = (s.makeRunnable o tid).veil t status := by
  unfold makeRunnable
  split
  · split
    · exact pushHpRunq_veil
    · exact pushRunq_veil
  · rfl

theorem signal_veil (chan : Chan) (all : Bool) :
    (s.veil t status).signal o chan all = (s.signal o chan all).veil t status :=
  foldl_veil makeRunnable_veil _ { s with toCore := (s.toCore.signal chan all).1 }

theorem tickAndFire_veil : (s.veil t status).tickAndFire o = (s.tickAndFire o).veil t status :=
  foldl_veil makeRunnable_veil _ { s with toCore := s.toCore.tick.fireTimeouts.1 }

theorem wakeUpIdleThread_veil :
    (s.veil t status).wakeUpIdleThread o = (s.wakeUpIdleThread o).veil t status := by
  refine foldl_veil (fun s tid => ?_) _ { s with toCore := s.toCore.wakeIdle.1 }
  split
  · exact pushRunq_veil
  · rfl

theorem returnToRunq_veil : (s.veil t status).returnToRunq tid = (s.returnToRunq tid).veil t status := by
  unfold returnToRunq
  rw [pushRunq_veil]
  rfl

theorem bringBack_veil (s : Sched) (tid : Tid) :
    (s.veil t status).bringBack o tid = (s.bringBack o tid).veil t status := by
  have isIn : (s.veil t status).runq.isIn (s.veil t status).elems tid = s.runq.isIn s.elems tid :=
    RunQueue.isIn_setStatus _ _
  unfold bringBack
  rw [isIn]
  split
  · rfl
  · have back : (if 0 ≤ o.enforceTurnType then (s.veil t status).returnToRunq tid
        else (s.veil t status).post o tid) =
        (if 0 ≤ o.enforceTurnType then s.returnToRunq tid else s.post o tid).veil t status := by
      split
      · exact returnToRunq_veil
      · rfl
    dsimp only
    rw [back]
    split <;> rfl

theorem checkWakeup_veil (order : List Tid) :
    (s.veil t status).checkWakeup o order = (s.checkWakeup o order).veil t status := by
  unfold checkWakeup
  rw [foldl_veil bringBack_veil]
  show (if s.interProWakeupFlag = true then _ else _) = _
  split <;> rfl

theorem incTurnCount_veil (order : List Tid) :
    (s.veil t status).incTurnCount o order = (s.incTurnCount o order).veil t status := by
  unfold incTurnCount
  rw [tickAndFire_veil, checkWakeup_veil]

theorem checkNonDetBound_veil :
    (s.veil t status).checkNonDetBound o = (s.checkNonDetBound o).veil t status := by
  have nonDet : (s.veil t status).nonDetThds = s.nonDetThds := rfl
  have turnCount : (s.veil t status).turnCount = s.turnCount := rfl
  unfold checkNonDetBound
  rw [nonDet, turnCount]
  cases o.enforceNonDetClockBound with
  | false => rfl
  | true =>
    cases s.nonDetThds.tids with
    | nil => rfl
    | cons tid tids =>
      have read : (s.veil t status).readClock tid = (s.readClock tid).veil t status := rfl
      dsimp only
      rw [read, returnToRunq_veil]
      split
      · split <;> rfl
      · rfl

theorem popOwn_veil : (s.veil t status).popOwn tid = (s.popOwn tid).map (veil t status) := by
  unfold popOwn
  rw [popHpRunq_veil, popRunq_veil]
  show (if (s.waits tid).wokenUpFromHpQueueFlag = true then _ else _) = _
  split
  · rw [Option.map_map, Option.map_map]
    rfl
  · rfl

theorem nextPop_veil (different : tid ≠ t) :
    (s.veil t status).nextPop o tid = (s.nextPop o tid).map (veil t status) := by
  have same : (s.veil t status).elems tid = s.elems tid := Function.update_of_ne different _ _
  unfold nextPop
  rw [same]
  split
  · dsimp only
    rw [setStatus_veil different, popOwn_veil]
  · rfl

theorem requeue_veil (strategy : Strategy) :
    (s.veil t status).requeue tid strategy = (s.requeue tid strategy).map (veil t status) := by
  cases strategy with
  | currentThread | create => rfl
  | yield =>
    show ((s.veil t status).popOwn tid).bind _ = ((s.popOwn tid).bind _).map _
    rw [popOwn_veil, Option.bind_map, Option.map_bind]
    exact congrArg _ (funext fun s => insertYield_veil)
  | default | currentRole =>
    show ((s.veil t status).popOwn tid).map _ = ((s.popOwn tid).map _).map _
    rw [popOwn_veil, Option.map_map, Option.map_map]
    exact congrArg (fun f => Option.map f _) (funext fun s => pushRunq_veil)

theorem putTurn_veil (different : tid ≠ t) (strategy : Strategy) :
    (s.veil t status).putTurn o tid strategy = (s.putTurn o tid strategy).map (veil t status) := by
  unfold putTurn
  split
  · rw [setStatus_veil different, requeue_veil, Option.map_map, Option.map_map]
    exact congrArg (fun f => Option.map f _) (funext fun s => checkNonDetBound_veil)
  · exact congrArg some checkNonDetBound_veil

theorem finish_veil : (s.veil t status).finish o tid = (s.finish o tid).veil t status := by
  have joiner : (s.veil t status).signalJoiner o tid = (s.signalJoiner o tid).veil t status := by
    unfold signalJoiner
    rw [show (s.veil t status).tm = s.tm from rfl]
    cases s.tm.tToP tid with
    | some th => exact signal_veil (.thread th) false
    | none => rfl
  unfold finish
  rw [joiner]
  exact @checkNonDetBound_veil o t status
    { s.signalJoiner o tid with tm := (s.signalJoiner o tid).tm.zombify tid }

theorem putTurnAtEnd_veil (different : tid ≠ t) :
    (s.veil t status).putTurnAtEnd o tid = (s.putTurnAtEnd o tid).map (veil t status) := by
  unfold putTurnAtEnd
  rw [finish_veil, nextPop_veil different]

theorem wait_veil (different : tid ≠ t) (chan : Option Chan) (timeout : Nat) (order : List Tid) :
    (s.veil t status).wait o tid chan timeout order =
      (s.wait o tid chan timeout order).map (veil t status) := by
  have entered : (s.veil t status).enterWaitq o tid chan timeout order =
      (s.enterWaitq o tid chan timeout order).veil t status := by
    unfold enterWaitq
    rw [incTurnCount_veil]
    dsimp only
    split <;> rfl
  unfold wait
  rw [entered, nextPop_veil different]

theorem enterNonDet_veil : (s.veil t status).enterNonDet o tid = (s.enterNonDet o tid).veil t status := by
  unfold enterNonDet
  split <;> rfl

theorem block_veil (different : tid ≠ t) (order : List Tid) :
    (s.veil t status).block o tid order = (s.block o tid order).map (veil t status) := by
  unfold block
  rw [enterNonDet_veil, incTurnCount_veil, nextPop_veil different, Option.map_map, Option.map_map]
  refine congrArg (fun f => Option.map f _) (funext fun s => ?_)
  simp only [Function.comp]
  split <;> rfl

theorem idleEnqueue_veil (different : tid ≠ t) :
    (s.veil t status).idleEnqueue o tid = (s.idleEnqueue o tid).map (veil t status) := by
  exact @nextPop_veil o t status (s.enterIdle tid) tid different

theorem create_veil (old : s.tm.nthread ≠ t) (th : PthreadT) (threadFunc : ThreadFunc) :
    (s.veil t status).create o th threadFunc = (s.create o th threadFunc).veil t status := by
  have fresh : Function.update (MinSmt.setStatus s.elems t status) s.tm.nthread {} =
      MinSmt.setStatus (Function.update s.elems s.tm.nthread {}) t status := by
    unfold MinSmt.setStatus
    rw [Function.update_comm old.symm, Function.update_of_ne old.symm]
  have before : ({ s.veil t status with
      tm := s.tm.create o.wakeamapPlus th threadFunc
      elems := Function.update (s.veil t status).elems s.tm.nthread {} } : Sched) =
      ({ s with
        tm := s.tm.create o.wakeamapPlus th threadFunc
        elems := Function.update s.elems s.tm.nthread {} } : Sched).veil t status := by
    show ({ s with
      tm := s.tm.create o.wakeamapPlus th threadFunc
      elems := Function.update (MinSmt.setStatus s.elems t status) s.tm.nthread {} } : Sched) = _
    rw [fresh]
    rfl
  unfold create
  dsimp only
  rw [show (s.veil t status).tm = s.tm from rfl, before]
  split
  · split
    · exact pushHpRunq_veil
    · exact pushRunq_veil
  · rfl

/-! ### The choice of the next thread -/

/-- Another status in what a round leaves. -/
def Pick.veil (t : Tid) (status : ThdStatus) : Pick → Pick
  | .again s strategy => .again (s.veil t status) strategy
  | .grant s tid => .grant (s.veil t status) tid
  | .invalid => .invalid
  | .exit => .exit
  | .threadExit => .threadExit
  | .crash => .crash

theorem noteRemoved_veil : (s.veil t status).noteRemoved o tid = (s.noteRemoved o tid).veil t status := by
  unfold noteRemoved
  rw [enterNonDet_veil]
  rfl

theorem grantHead_veil (different : tid ≠ t) :
    (s.veil t status).grantHead tid = (s.grantHead tid).veil t status := by
  have same : (s.veil t status).elems tid = s.elems tid := Function.update_of_ne different _ _
  unfold grantHead
  rw [same]
  split
  · exact setStatus_veil different _
  · rfl

theorem pickRunq_veil (unseen : s.runq.head ≠ some t) (strategy : Strategy) :
    (s.veil t status).pickRunq o strategy = (s.pickRunq o strategy).veil t status := by
  unfold pickRunq
  rw [show (s.veil t status).runq = s.runq from rfl]
  cases isHead : s.runq.head with
  | none => rfl
  | some head =>
    have different : head ≠ t := fun same => unseen (by rw [isHead, same])
    have same : (s.veil t status).elems head = s.elems head := Function.update_of_ne different _ _
    dsimp only
    rw [same, popRunq_veil, grantHead_veil different]
    split
    · cases s.popRunq with
      | none => rfl
      | some s' => exact congrArg (Pick.again · strategy) noteRemoved_veil
    · rfl

theorem pickHp_veil (unseen : s.hpRunq.head ≠ some t) (strategy : Strategy) :
    (s.veil t status).pickHp o strategy = (s.pickHp o strategy).veil t status := by
  unfold pickHp
  rw [show (s.veil t status).hpRunq = s.hpRunq from rfl]
  cases isHead : s.hpRunq.head with
  | none => rfl
  | some head =>
    have different : head ≠ t := fun same => unseen (by rw [isHead, same])
    have same : (s.veil t status).elems head = s.elems head := Function.update_of_ne different _ _
    dsimp only
    rw [same, popHpRunq_veil, grantHead_veil different]
    split
    · cases s.popHpRunq with
      | none => rfl
      | some s' => exact congrArg (Pick.again · strategy) noteRemoved_veil
    · rfl

theorem pickRole_veil (unseen : s.runq.head ≠ some t) (self : Tid) (strategy : Strategy) :
    (s.veil t status).pickRole o self strategy = (s.pickRole o self strategy).veil t status := by
  unfold pickRole
  rw [show (s.veil t status).tm = s.tm from rfl, show (s.veil t status).runq = s.runq from rfl]
  cases s.tm.tToR self with
  | none => rfl
  | some role =>
    cases isHead : s.runq.head with
    | none => rfl
    | some head =>
      have different : head ≠ t := fun same => unseen (by rw [isHead, same])
      have same : (s.veil t status).elems head = s.elems head := Function.update_of_ne different _ _
      dsimp only
      rw [same, popRunq_veil, grantHead_veil different]
      split
      · cases s.popRunq with
        | none => rfl
        | some s' => exact congrArg (Pick.again · strategy) noteRemoved_veil
      · cases s.tm.tToR head with
        | none => rfl
        | some headRole =>
          dsimp only
          split
          · rfl
          · cases s.popRunq with
            | none => rfl
            | some s' => exact congrArg (Pick.again · strategy) pushRunq_veil

/-- The head whose status a round of `nextRunnable` reads. -/
def examined (o : Options) (s : Sched) (self : Tid) (strategy : Strategy) : Option Tid :=
  if FromHpRunq o s self strategy then s.hpRunq.head
  else if strategy = .currentRole ∧ s.runq.empty = false then s.runq.head
  else if s.runq.empty then (s.wakeUpIdleThread o).runq.head
  else if o.enforceNonDetAnnotations = true ∧ 0 < s.nNonDetWait ∧ self = idleThreadTid ∧
      s.runq.numElements = 1 ∧ s.runq.head = some idleThreadTid then
    (s.signal o .nonDetCV true).runq.head
  else s.runq.head

theorem nextRunnable_veil {self : Tid} {strategy : Strategy}
    (unseen : s.examined o self strategy ≠ some t) (idleDone atThreadEnd : Bool) :
    (s.veil t status).nextRunnable o idleDone self atThreadEnd strategy =
      (s.nextRunnable o idleDone self atThreadEnd strategy).veil t status := by
  have fromHp : FromHpRunq o (s.veil t status) self strategy = FromHpRunq o s self strategy := rfl
  have runq : (s.veil t status).runq = s.runq := rfl
  have waitq : (s.veil t status).waitq = s.waitq := rfl
  have nonDet : (s.veil t status).nNonDetWait = s.nNonDetWait := rfl
  unfold examined at unseen
  unfold nextRunnable
  simp only [fromHp, runq, waitq, nonDet, wakeUpIdleThread_veil, signal_veil]
  by_cases hp : FromHpRunq o s self strategy
  · rw [if_pos hp] at unseen
    rw [if_pos hp, if_pos hp]
    exact pickHp_veil unseen strategy
  · rw [if_neg hp] at unseen
    rw [if_neg hp, if_neg hp]
    split
    · rename_i role
      rw [if_pos role] at unseen
      exact pickRole_veil unseen self strategy
    · rename_i noRole
      rw [if_neg noRole] at unseen
      split
      · rename_i empty
        rw [if_pos empty] at unseen
        split
        · rfl
        · split
          · rfl
          · split
            · rfl
            · exact pickRunq_veil unseen _
      · rename_i nonempty
        rw [if_neg nonempty] at unseen
        split
        · rename_i wakes
          rw [if_pos wakes] at unseen
          exact pickRunq_veil unseen strategy
        · rename_i quiet
          rw [if_neg quiet] at unseen
          exact pickRunq_veil unseen strategy

end Veil

end Sched

/-! ### Steps and runs -/

open Sched

/-- The step reads the status of the thread `t`. -/
def Sys.Looks (o : Options) (t : Tid) (s : Sys) (label : Tid × Action) : Prop :=
  match label.2 with
  | .nextRunnable => s.sched.examined o label.1 (s.pc label.1).strategy = some t
  | .tryElem => s.pc label.1 = .trying (some t)
  | _ => False

theorem Sys.looks_iff {o : Options} {t : Tid} {s : Sys} {label : Tid × Action} :
    s.Looks o t label ↔
      (label.2 = .nextRunnable ∧ s.sched.examined o label.1 (s.pc label.1).strategy = some t) ∨
        (label.2 = .tryElem ∧ s.pc label.1 = .trying (some t)) := by
  obtain ⟨tid, action⟩ := label
  cases action <;> simp [Sys.Looks]

instance (o : Options) (t : Tid) (s : Sys) (label : Tid × Action) : Decidable (s.Looks o t label) :=
  decidable_of_iff' _ Sys.looks_iff

namespace Sys

/-- The process with another status and another position of the thread `t`. -/
def veil (t : Tid) (status : ThdStatus) (pc : Pc) (s : Sys) : Sys := s.goto t (s.sched.veil t status) pc

variable {o : Options} {t : Tid} {status : ThdStatus} {pc : Pc} {s s' : Sys} {tid : Tid}

theorem goto_veil (different : tid ≠ t) (sched : Sched) (pc' : Pc) :
    (s.veil t status pc).goto tid (sched.veil t status) pc' = (s.goto tid sched pc').veil t status pc := by
  unfold veil goto
  rw [Function.update_comm different.symm]

theorem leave_veil (different : tid ≠ t) (sched : Option Sched) (atThreadEnd : Bool)
    (strategy : Strategy) (after : After) :
    (s.veil t status pc).leave tid (sched.map (Sched.veil t status)) atThreadEnd strategy after =
      (s.leave tid sched atThreadEnd strategy after).veil t status pc := by
  cases sched with
  | none => rfl
  | some sched => exact goto_veil different _ _

theorem pc_veil (different : tid ≠ t) : (s.veil t status pc).pc tid = s.pc tid := goto_pc_of_ne different

theorem turnStep_veil (different : tid ≠ t) (old : s.sched.tm.nthread ≠ t) (action : Action) :
    (s.veil t status pc).turnStep o tid action = (s.turnStep o tid action).map (veil t status pc) := by
  have sched : (s.veil t status pc).sched = s.sched.veil t status := rfl
  have side : (s.sched.veil t status).interProWakeupTids = s.sched.interProWakeupTids := rfl
  cases action with
  | incTurnCount order =>
    simp only [Sys.turnStep, sched, side, incTurnCount_veil]
    split <;> rfl
  | signal chan all =>
    simp only [Sys.turnStep, sched, signal_veil]
    rfl
  | create th threadFunc =>
    simp only [Sys.turnStep, sched, create_veil old]
    exact congrArg some (goto_veil old _ _)
  | changeRole th roleFunc => rfl
  | nonDetWait more => rfl
  | putTurn strategy =>
    simp only [Sys.turnStep, sched, putTurn_veil different]
    exact congrArg some (leave_veil different _ _ _ _)
  | endThread order =>
    simp only [Sys.turnStep, sched, side, incTurnCount_veil, putTurnAtEnd_veil different]
    split
    · exact congrArg some (leave_veil different _ _ _ _)
    · rfl
  | wait chan timeout order =>
    simp only [Sys.turnStep, sched, side, wait_veil different]
    split
    · exact congrArg some (leave_veil different _ _ _ _)
    · rfl
  | sleep turns order =>
    have core : (s.sched.veil t status).toCore = s.sched.toCore := rfl
    simp only [Sys.turnStep, sched, side, core, wait_veil different]
    split
    · exact congrArg some (leave_veil different _ _ _ _)
    · rfl
  | block order =>
    simp only [Sys.turnStep, sched, side, block_veil different]
    split
    · exact congrArg some (leave_veil different _ _ _ _)
    · rfl
  | idleCondWait order =>
    simp only [Sys.turnStep, sched, side, incTurnCount_veil]
    have size : ((s.sched.incTurnCount o order).veil t status).runq =
      (s.sched.incTurnCount o order).runq := rfl
    have second : ((s.sched.incTurnCount o order).veil t status).second =
        (s.sched.incTurnCount o order).second := by
      unfold Sched.second
      rw [size]
      exact congrArg _ (funext fun head => RunQueue.next_setStatus _)
    rw [size, second, putTurn_veil different]
    split
    · split
      · exact congrArg some (goto_veil different _ _)
      · exact congrArg some (leave_veil different _ _ _ _)
    · rfl
  | _ => rfl

theorem tryStep_veil (different : tid ≠ t) {cur : Option Tid} (unseen : cur ≠ some t) :
    (s.veil t status pc).tryStep o tid cur = (s.tryStep o tid cur).veil t status pc := by
  have sched : (s.veil t status pc).sched = s.sched.veil t status := rfl
  cases cur with
  | none =>
    simp only [Sys.tryStep, sched, putTurn_veil different]
    exact leave_veil different _ _ _ _
  | some cur =>
    have isOther : cur ≠ t := fun same => unseen (congrArg some same)
    have same : (s.sched.veil t status).elems cur = s.sched.elems cur := Function.update_of_ne isOther _ _
    simp only [Sys.tryStep, sched, same, setStatus_veil isOther, idleEnqueue_veil different]
    split
    · exact leave_veil different _ _ _ _
    · exact goto_veil different _ _

theorem leaveStep_veil (different : tid ≠ t) {phase : Phase} {atThreadEnd : Bool} {strategy : Strategy}
    {after : After} {action : Action}
    (unseen : action = .nextRunnable → s.sched.examined o tid strategy ≠ some t) :
    (s.veil t status pc).leaveStep o tid phase atThreadEnd strategy after action =
      (s.leaveStep o tid phase atThreadEnd strategy after action).map (veil t status pc) := by
  have sched : (s.veil t status pc).sched = s.sched.veil t status := rfl
  have side : (s.sched.veil t status).interProWakeupTids = s.sched.interProWakeupTids := rfl
  have idleDone : (s.veil t status pc).idleDone = s.idleDone := rfl
  cases action with
  | checkWakeup order =>
    simp only [Sys.leaveStep, sched, side, checkWakeup_veil]
    split
    · split
      · exact congrArg some (goto_veil different _ _)
      · exact congrArg some (goto_veil different
          { s.sched.checkWakeup o order with inSync := false } _)
    · rfl
  | nextRunnable =>
    simp only [Sys.leaveStep, sched, idleDone, nextRunnable_veil (unseen rfl)]
    split
    · refine congrArg some ?_
      cases s.sched.nextRunnable o s.idleDone tid atThreadEnd strategy with
      | again sched' strategy' => exact goto_veil different _ _
      | grant sched' next => exact goto_veil different _ _
      | invalid =>
        exact congrArg (fun s : Sys => { s with outcome := some .invalidTid }) (goto_veil different _ _)
      | threadExit =>
        exact congrArg (fun s : Sys => { s with outcome := some .threadExited }) (goto_veil different _ _)
      | exit => rfl
      | crash => rfl
    · rfl
  | post =>
    simp only [Sys.leaveStep, sched]
    cases phase with
    | posting next => exact congrArg some (goto_veil different (s.sched.post o next) _)
    | _ => rfl
  | _ => rfl

theorem awayStep_veil (different : tid ≠ t) (action : Action) :
    (s.veil t status pc).awayStep tid action = (s.awayStep tid action).map (veil t status pc) := by
  have sched : (s.veil t status pc).sched = s.sched.veil t status := rfl
  have same : (s.sched.veil t status).elems tid = s.sched.elems tid := Function.update_of_ne different _ _
  cases action with
  | getTurn => exact congrArg some (goto_veil different s.sched _)
  | interProStart =>
    simp only [Sys.awayStep, sched, Sched.interProStart, same, setStatus_veil different]
    split <;> exact congrArg some (goto_veil different _ _)
  | progEnd =>
    simp only [Sys.awayStep]
    split <;> rfl
  | _ => rfl

theorem take_veil : (s.sched.veil t status).take o tid = (s.sched.take o tid).map (Sched.veil t status) := by
  unfold Sched.take
  show ((s.sched.waits tid).take o).bind _ = _
  rw [Option.map_bind]
  refine congrArg _ (funext fun w => ?_)
  simp only [Function.comp]
  split
  · show (if s.sched.inSync = true then none else _) = _
    split <;> rfl
  · rfl

/-- **A step of another thread that does not look at `t` does the same.** -/
theorem step_veil (different : tid ≠ t) (old : s.sched.tm.nthread ≠ t) {action : Action}
    (unseen : ¬ s.Looks o t (tid, action)) :
    (s.veil t status pc).step o (tid, action) = (s.step o (tid, action)).map (veil t status pc) := by
  have thread : (s.veil t status pc).threadStep o tid action =
      (s.threadStep o tid action).map (veil t status pc) := by
    have sched : (s.veil t status pc).sched = s.sched.veil t status := rfl
    have side : (s.sched.veil t status).interProWakeupTids = s.sched.interProWakeupTids := rfl
    unfold Sys.threadStep
    rw [pc_veil different, sched]
    cases here : s.pc tid with
    | away => exact awayStep_veil different action
    | woken => exact awayStep_veil different action
    | trying cur =>
      cases action with
      | tryElem =>
        refine congrArg some (tryStep_veil different fun same => unseen ?_)
        rw [Sys.Looks, here, same]
      | _ => rfl
    | leaving phase atThreadEnd strategy after =>
      refine leaveStep_veil different fun isRound => ?_
      subst isRound
      simpa [Sys.Looks, here, Pc.strategy] using unseen
    | turn blocking =>
      cases blocking with
      | false => exact turnStep_veil different old action
      | true =>
        cases action with
        | block order =>
          dsimp only
          rw [side, block_veil different]
          split
          · exact congrArg some (leave_veil different _ _ _ _)
          · rfl
        | _ => rfl
    | waiting blocking =>
      cases action with
      | gotTurn =>
        dsimp only
        rw [take_veil, Option.map_map, Option.map_map]
        exact congrArg (fun f => Option.map f _) (funext fun sched => goto_veil different _ _)
      | _ => rfl
    | inCall =>
      cases action with
      | interProEnd =>
        refine congrArg some ?_
        rw [Sched.interProEnd, setStatus_veil different]
        exact goto_veil different _ _
      | _ => rfl
    | callDone =>
      cases action with
      | wakeup => exact congrArg some (goto_veil different (s.sched.wakeup tid) _)
      | _ => rfl
    | nonDet =>
      cases action with
      | wakeup => exact congrArg some (goto_veil different (s.sched.wakeup tid) _)
      | _ => rfl
    | idling =>
      cases action with
      | getTurn => exact congrArg some (goto_veil different s.sched _)
      | _ => rfl
    | dead => rfl
    | exited after => rfl
  unfold Sys.step
  rw [show (s.veil t status pc).outcome = s.outcome from rfl]
  cases s.outcome with
  | none => exact thread
  | some outcome =>
    cases outcome with
    | exited => rfl
    | crashed => rfl
    | _ => exact thread

end Sys

end MinSmt
