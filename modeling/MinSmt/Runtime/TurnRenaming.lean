/-
**The wrappers under other handles.**

A wrapper gets a handle as the argument of `pthread_join` and from `pthread_create`, and only hands it
on to the scheduler. So its turn is the same whatever the handles are.

* `Serializer.Renames h φ` — the scheduler's operations commute with `φ`, which puts other handles in.
* `turn_rename` — then every turn does.
-/

import MinSmt.Runtime.Execution
import MinSmt.Scheduler.Renaming

namespace MinSmt

variable {h : PthreadT → PthreadT}

/-! ### Calls and stages -/

/-- A call with other handles. -/
def Call.rename (h : PthreadT → PthreadT) : Call → Call
  | .create th threadFunc arg => .create (h th) threadFunc arg
  | .createIdle th => .createIdle (h th)
  | .join th => .join (h th)
  | call => call

/-- A stage with other handles. -/
def Stage.rename (h : PthreadT → PthreadT) : Stage → Stage
  | .called call => .called (call.rename h)
  | .joining th => .joining (h th)
  | stage => stage

/-- A stage with other handles, before `pthread_create` has given one. -/
def Stage.named (h : PthreadT → PthreadT) : Stage → Stage
  | .called call => .called (call.named h)
  | .joining th => .joining (h th)
  | stage => stage

/-- The way the turn is given up, with other handles. -/
def Finish.rename (h : PthreadT → PthreadT) : Finish → Finish
  | .wait chan timeout stage => .wait (chan.map (Chan.rename h)) timeout (stage.named h)
  | .bounce stage => .bounce (stage.named h)
  | finish => finish

/-! ### The turns -/

/-- **The scheduler does the same under other handles.** -/
structure Serializer.Renames {σ : Type} (S : Serializer σ) (h : PthreadT → PthreadT) (φ : σ → σ) : Prop where
  core : ∀ s, S.core (φ s) = (S.core s).rename h
  signal : ∀ s chan all, S.signal (φ s) (chan.rename h) all = φ (S.signal s chan all)
  incTurnCount : ∀ s, S.incTurnCount (φ s) = φ (S.incTurnCount s)
  create : ∀ s th threadFunc, S.create (φ s) (h th) threadFunc = φ (S.create s th threadFunc)
  join : ∀ s th, S.join (φ s) (h th) = φ (S.join s th)

section Turns

variable {σ : Type} {S : Serializer σ} {φ : σ → σ}

/-- What the thread reads and writes, with other handles. -/
def Env.map (φ : σ → σ) (e : Env σ) : Env σ := { e with sched := φ e.sched }

/-- What a turn leaves, with other handles. -/
def renameEnd (h : PthreadT → PthreadT) (φ : σ → σ) (r : Env σ × Finish) : Env σ × Finish :=
  (r.1.map φ, r.2.rename h)

variable (renames : S.Renames h φ) {o : Options} {tid : Tid}

include renames

theorem Env.signal_map (e : Env σ) (chan : Chan) (all : Bool) :
    (e.map φ).signal S (chan.rename h) all = (e.signal S chan all).map φ := by
  unfold Env.signal Env.map
  dsimp only
  rw [renames.signal]

theorem Env.incTurnCount_map (e : Env σ) : (e.map φ).incTurnCount S = (e.incTurnCount S).map φ := by
  unfold Env.incTurnCount Env.map
  dsimp only
  rw [renames.incTurnCount]

theorem Env.deadline_map (e : Env σ) (reltime : Option Timespec) :
    (e.map φ).deadline S o reltime = e.deadline S o reltime := by
  unfold Env.deadline Env.map
  dsimp only
  rw [renames.core]
  rfl

theorem Env.roleOf_map (e : Env σ) (caller : Nat) : (e.map φ).roleOf S tid caller = e.roleOf S tid caller := by
  unfold Env.roleOf Env.map
  dsimp only
  rw [renames.core]
  rfl

theorem Env.wakeRet_map (e : Env σ) : (e.map φ).wakeRet S tid = e.wakeRet S tid := by
  unfold Env.wakeRet Env.map
  dsimp only
  rw [renames.core]
  rfl

omit renames in
theorem Loop.leave_rename (e : Env σ) (ret : Result) (loop : Loop) :
    loop.leave o (e.map φ) ret = renameEnd h φ (loop.leave o e ret) := by
  cases loop <;> rfl

omit renames in
theorem Loop.enter_rename (e : Env σ) (loop : Loop) :
    loop.enter o tid (e.map φ) = renameEnd h φ (loop.enter o tid e) := by
  unfold Loop.enter
  rw [show loop.attempt tid (e.map φ).shared = loop.attempt tid e.shared from rfl]
  cases loop.attempt tid e.shared with
  | some shared => exact Loop.leave_rename { e with shared := shared } {} loop
  | none => cases loop <;> rfl

theorem pthreadJoin_rename (inj : Function.Injective h) (e : Env σ) (th : PthreadT) :
    pthreadJoin S (e.map φ) (h th) = renameEnd h φ (pthreadJoin S e th) := by
  unfold pthreadJoin
  have same : (S.core (e.map φ).sched).tm.zombie (h th) = (S.core e.sched).tm.zombie th := by
    rw [show (e.map φ).sched = φ e.sched from rfl, renames.core]
    exact TidMap.zombie_rename inj _ th
  rw [same]
  split
  · show ({ e.map φ with sched := S.join (φ e.sched) (h th) }, _) = _
    rw [renames.join]
    rfl
  · rfl

theorem sleepFor_rename (e : Env σ) (ts : Option Timespec) :
    sleepFor S o (e.map φ) ts = renameEnd h φ (sleepFor S o e ts) := by
  unfold sleepFor
  rw [Env.deadline_map renames]
  split
  · cases e.deadline S o ts <;> rfl
  · rfl

theorem condWait_rename (e : Env σ) (cv mu caller : Nat) :
    condWait S o tid (e.map φ) cv mu caller = renameEnd h φ (condWait S o tid e cv mu caller) := by
  unfold condWait
  dsimp only
  rw [Env.roleOf_map renames]
  generalize e.roleOf S tid caller = role
  have signalled := Env.signal_map renames
    { e with
      shared := (noteWait o (e.shared.addCond cv 1) cv role).setMutex mu
        (((noteWait o (e.shared.addCond cv 1) cv role).mutex mu).unlock tid).1 } (.mutex mu) false
  exact Prod.ext ((congrArg (Env.incTurnCount S) signalled).trans (Env.incTurnCount_map renames _)) rfl

theorem condTimedWait_rename (e : Env σ) (cv mu caller : Nat) (cur : Timespec) (abstime : Option Timespec) :
    condTimedWait S o tid (e.map φ) cv mu caller cur abstime =
      renameEnd h φ (condTimedWait S o tid e cv mu caller cur abstime) := by
  cases abstime with
  | none => exact condWait_rename renames e cv mu caller
  | some abstime =>
    unfold condTimedWait
    dsimp only
    rw [Env.roleOf_map renames]
    generalize e.roleOf S tid caller = role
    have counted := Env.incTurnCount_map renames
      { e with
        shared := noteWait o ((e.shared.setMutex mu ((e.shared.mutex mu).unlock tid).1).addCond cv 1) cv role }
    have signalled := Env.signal_map renames
      (Env.incTurnCount S
        { e with
          shared := noteWait o ((e.shared.setMutex mu ((e.shared.mutex mu).unlock tid).1).addCond cv 1) cv
            role })
      (.mutex mu) false
    have same := (congrArg (Env.signal S · (.mutex mu) false) counted).trans signalled
    rw [show Env.signal S (Env.incTurnCount S
      { e.map φ with shared := noteWait o (((e.map φ).shared.setMutex mu
        (((e.map φ).shared.mutex mu).unlock tid).1).addCond cv 1) cv role }) (.mutex mu) false = _ from same,
      Env.deadline_map renames]
    split <;> rfl

theorem mutexTimedLock_rename (e : Env σ) (mu : Nat) (cur : Timespec) (abstime : Option Timespec) :
    mutexTimedLock S o tid (e.map φ) mu cur abstime = renameEnd h φ (mutexTimedLock S o tid e mu cur abstime) := by
  cases abstime with
  | none => exact Loop.enter_rename e _
  | some abstime =>
    unfold mutexTimedLock
    dsimp only
    rw [Env.deadline_map renames]
    split
    · exact Loop.enter_rename e _
    · rfl

theorem semTimedWait_rename (e : Env σ) (sem : Nat) (cur : Timespec) (abstime : Option Timespec) :
    semTimedWait S o tid (e.map φ) sem cur abstime = renameEnd h φ (semTimedWait S o tid e sem cur abstime) := by
  cases abstime with
  | none => exact Loop.enter_rename e _
  | some abstime =>
    unfold semTimedWait
    dsimp only
    rw [Env.deadline_map renames]
    split
    · exact Loop.enter_rename e _
    · rfl

theorem mutexUnlock_rename (e : Env σ) (mu : Nat) :
    mutexUnlock S o tid (e.map φ) mu = renameEnd h φ (mutexUnlock S o tid e mu) := by
  unfold mutexUnlock
  exact Prod.ext (Env.signal_map renames
    { e with
      shared := e.shared.setMutex mu ((e.shared.mutex mu).unlock tid).1
      self :=
        if o.schedulingPolicy.testBit 0 = true ∧ 0 < e.self.inCSLevel ∧ e.self.noCSWholeLocal = false then
          { e.self with inCSLevel := e.self.inCSLevel - 1 }
        else e.self } (.mutex mu) false) rfl

theorem rwlockUnlock_rename (e : Env σ) (rw : Nat) :
    rwlockUnlock S tid (e.map φ) rw = renameEnd h φ (rwlockUnlock S tid e rw) :=
  Prod.ext (Env.signal_map renames
    { e with shared := e.shared.setRWLock rw ((e.shared.rwlock rw).unlock tid) } (.rwlock rw) false) rfl

theorem condSignal_rename (e : Env σ) (cv : Nat) :
    condSignal S o (e.map φ) cv = renameEnd h φ (condSignal S o e cv) := by
  unfold condSignal
  rw [show (e.map φ).signal S (.cond cv) false = _ from Env.signal_map renames e (.cond cv) false]
  rfl

theorem condBroadcast_rename (e : Env σ) (cv : Nat) :
    condBroadcast S o (e.map φ) cv = renameEnd h φ (condBroadcast S o e cv) := by
  unfold condBroadcast
  rw [show (e.map φ).signal S (.cond cv) true = _ from Env.signal_map renames e (.cond cv) true]
  rfl

theorem semPost_rename (e : Env σ) (sem : Nat) :
    semPost S o (e.map φ) sem = renameEnd h φ (semPost S o e sem) := by
  have signalled := Env.signal_map renames { e with shared := e.shared.setSem sem (e.shared.sem sem + 1) }
    (.sem sem) false
  unfold semPost
  dsimp only
  rw [show Env.signal S { e.map φ with shared := (e.map φ).shared.setSem sem ((e.map φ).shared.sem sem + 1) }
    (.sem sem) false = _ from signalled]
  rfl

theorem barrierWait_rename (e : Env σ) (barrier : Nat) :
    barrierWait S (e.map φ) barrier = renameEnd h φ (barrierWait S e barrier) := by
  unfold barrierWait
  rw [Env.incTurnCount_map renames]
  generalize e.incTurnCount S = counted
  have same : (counted.map φ).shared = counted.shared := rfl
  dsimp only
  rw [same]
  cases counted.shared.barriers barrier with
  | none => rfl
  | some b =>
    dsimp only
    split
    · exact Prod.ext (Env.signal_map renames
        { counted with shared := { counted.shared with
          barriers := Function.update counted.shared.barriers barrier (some { b with narrived := 0 }) } }
        (.barrier barrier) true) rfl
    · rfl

theorem lineupStart_rename (e : Env σ) (opaqueType : Nat) :
    lineupStart S (e.map φ) opaqueType = renameEnd h φ (lineupStart S e opaqueType) := by
  have counted : (S.core (e.map φ).sched).getTurnCount = (S.core e.sched).getTurnCount := by
    rw [show (e.map φ).sched = φ e.sched from rfl, renames.core]
    rfl
  unfold lineupStart
  rw [counted]
  rw [show (e.map φ).shared.refcntBars opaqueType = e.shared.refcntBars opaqueType from rfl]
  cases e.shared.refcntBars opaqueType with
  | none => rfl
  | some b =>
    dsimp only
    split
    · split
      · exact Prod.ext (Env.signal_map renames (setLineup e opaqueType _) (.lineup opaqueType) true) rfl
      · rfl
    · split <;> rfl

theorem lineupWoken_rename (e : Env σ) (opaqueType : Nat) :
    lineupWoken S (e.map φ) opaqueType = renameEnd h φ (lineupWoken S e opaqueType) := by
  unfold lineupWoken
  rw [show (e.map φ).shared.refcntBars opaqueType = e.shared.refcntBars opaqueType from rfl]
  cases e.shared.refcntBars opaqueType with
  | none => rfl
  | some b =>
    dsimp only
    split
    · exact Prod.ext (Env.signal_map renames (setLineup e opaqueType _) (.lineup opaqueType) true) rfl
    · rfl

omit renames in
theorem lineupEnd_rename (e : Env σ) (opaqueType : Nat) :
    lineupEnd (e.map φ) opaqueType = renameEnd h φ (lineupEnd e opaqueType) := by
  unfold lineupEnd
  rw [show (e.map φ).shared.refcntBars opaqueType = e.shared.refcntBars opaqueType from rfl]
  cases e.shared.refcntBars opaqueType <;> rfl

omit renames in
theorem semTryWait_rename (e : Env σ) (sem : Nat) :
    semTryWait (e.map φ) sem = renameEnd h φ (semTryWait e sem) := by
  unfold semTryWait
  rw [show (e.map φ).shared.semTrywait sem = e.shared.semTrywait sem from rfl]
  cases e.shared.semTrywait sem <;> rfl

omit renames in
theorem tryOnce_rename (e : Env σ) (attempt : Option Shared) :
    tryOnce (e.map φ) attempt = renameEnd h φ (tryOnce e attempt) := by
  cases attempt <;> rfl

omit renames in
theorem condTimedOut_rename (e : Env σ) (cv : Nat) (role : AddrNRole) :
    condTimedOut o (e.map φ) cv role = (condTimedOut o e cv role).map φ := by
  unfold condTimedOut
  dsimp only
  split <;> rfl

theorem condWoken_rename (e : Env σ) (timed : Bool) (cv mu : Nat) (role : AddrNRole) :
    condWoken S o tid (e.map φ) timed cv mu role = renameEnd h φ (condWoken S o tid e timed cv mu role) := by
  unfold condWoken
  split
  · dsimp only
    rw [Env.wakeRet_map renames]
    split
    · rw [condTimedOut_rename]
      exact Loop.enter_rename _ _
    · exact Loop.enter_rename _ _
  · exact Loop.enter_rename _ _

theorem callTurn_rename (inj : Function.Injective h) (e : Env σ) (call : Call) :
    callTurn S o tid (e.map φ) (call.rename h) = renameEnd h φ (callTurn S o tid e call) := by
  cases call with
  | create th threadFunc arg =>
    show ({ e.map φ with sched := S.create (φ e.sched) (h th) threadFunc },
      Finish.done true { thread := some (S.core (φ e.sched)).tm.nthread }) = _
    rw [renames.create, renames.core]
    rfl
  | createIdle th =>
    show ({ e.map φ with
      sched := S.create (φ e.sched) (h th) idleThreadFunc
      shared := { e.shared with idleCreated := true } }, Finish.done true {}) = _
    rw [renames.create]
    rfl
  | join th => exact pthreadJoin_rename renames inj e th
  | mutexLock mu => exact Loop.enter_rename e _
  | mutexTryLock mu => exact tryOnce_rename e _
  | mutexTimedLock mu cur abstime => exact mutexTimedLock_rename renames e mu cur abstime
  | mutexUnlock mu => exact mutexUnlock_rename renames e mu
  | rdlock rw => exact Loop.enter_rename e _
  | wrlock rw => exact Loop.enter_rename e _
  | tryrdlock rw => exact tryOnce_rename e _
  | trywrlock rw => exact tryOnce_rename e _
  | rwlockUnlock rw => exact rwlockUnlock_rename renames e rw
  | barrierWait barrier => exact barrierWait_rename renames e barrier
  | condWait cv mu caller => exact condWait_rename renames e cv mu caller
  | condTimedWait cv mu caller cur abstime => exact condTimedWait_rename renames e cv mu caller cur abstime
  | condSignal cv => exact condSignal_rename renames e cv
  | condBroadcast cv => exact condBroadcast_rename renames e cv
  | semWait sem => exact Loop.enter_rename e _
  | semTryWait sem => exact semTryWait_rename e sem
  | semTimedWait sem cur abstime => exact semTimedWait_rename renames e sem cur abstime
  | semPost sem => exact semPost_rename renames e sem
  | lineupStart opaqueType => exact lineupStart_rename renames e opaqueType
  | lineupEnd opaqueType => exact lineupEnd_rename e opaqueType
  | sleep seconds => exact sleepFor_rename renames e _
  | usleep usec => exact sleepFor_rename renames e _
  | nanosleep req => exact sleepFor_rename renames e _
  | _ => rfl

/-- **A turn does the same under other handles.** -/
theorem turn_rename (inj : Function.Injective h) (e : Env σ) (stage : Stage) :
    turn S o tid (e.map φ) (stage.rename h) = renameEnd h φ (turn S o tid e stage) := by
  cases stage with
  | called call => exact callTurn_rename renames inj e call
  | retry loop =>
    show loop.resume S o tid (e.map φ) = renameEnd h φ (loop.resume S o tid e)
    rw [Loop.resume_eq_enter, Loop.resume_eq_enter, Loop.enter_rename]
  | condWoken timed cv mu role => exact condWoken_rename renames e timed cv mu role
  | joining th => exact pthreadJoin_rename renames inj e th
  | lineupWoken opaqueType => exact lineupWoken_rename renames e opaqueType
  | _ => rfl

end Turns

end MinSmt
