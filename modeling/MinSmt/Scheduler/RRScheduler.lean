/-
**The round-robin scheduler** (`lib/runtime/record-scheduler.cpp`,
`include/tern/runtime/scheduler.h`).

`Sched` is the scheduler object: the thread maps and the wait queue (`Core`), the run queue elements,
`runq` and `hp_runq`, the side set of threads back from an external call, and the set of threads that
are outside the deterministic part. One ghost field is added, `removed`: the threads that `block` or
`nextRunnable` took off a run queue and that neither `check_wakeup` nor `checkNonDetBound` has put
back. No function reads it.

The functions below are the parts of the methods between two accesses to what threads without the
turn can write (the status of an element, under its spin lock, and `inter_pro_wakeup_tids`, under its
mutex): `putTurn`, `wait`, `block` and `next` are each cut there. `NDEBUG` is defined, so assertions
are not part of the code. A failed lookup that the code would follow (an empty queue's head, the end
of a map) ends the process: `Pick.crash`, or `none`.

`enforce_turn_type` selects how a turn is handed over: `1` a semaphore, `2` and `0` a flag, and below
zero the mode without run queues (`TONDSync`), where `inSync` is the lock.
-/

import MinSmt.Scheduler.WaitQueue

namespace MinSmt

/-- The options the scheduler and the wrappers read (`default.options`). -/
structure Options where
  enforceTurnType : Int := 2
  schedulingPolicy : Nat := 0
  wakeamapPlus : Bool := false
  enforceNonDetAnnotations : Bool := false
  enforceNonDetClockBound : Bool := false
  nonDetClockBound : Nat := 1000
  launchIdleThread : Nat := 2
  nanosecPerTurn : Nat := 3000
  highPriorityYield : Bool := false
  enforceNextNAnnotations : Bool := false
  deriving DecidableEq, Repr

/-- `MAX_REL` of `time2turn`, the most turns that a relative time becomes. -/
def maxRel : Nat := 1000000

/-- `options::scheduling_policy & 0x04`. -/
def Options.highPriority (o : Options) : Bool := o.schedulingPolicy.testBit 2

/-- The modes with run queues that the claims of the scheduler are about. -/
def Options.RoundRobin (o : Options) : Prop :=
  o.enforceTurnType = 0 ∨ o.enforceTurnType = 1 ∨ o.enforceTurnType = 2

instance (o : Options) : Decidable o.RoundRobin := inferInstanceAs (Decidable (_ ∨ _ ∨ _))

/-- The `PUTTURN_STRATEGY` constants, `0` to `4`. -/
inductive Strategy
  | default
  | currentThread
  | currentRole
  | yield
  | create
  deriving DecidableEq, Repr

/-- With these strategies `putTurn` leaves the caller's element where it is. -/
def Strategy.keeps : Strategy → Bool
  | .currentThread => true
  | .create => true
  | _ => false

/-- `non_det_thread_set`: the list, and the keys and the values of the map. One ghost field is added,
`misused`: `insert` was called on a member, or `erase` on a tid that is not there. No function reads
it. -/
structure NonDetSet where
  tids : List Tid := []
  keys : List Tid := []
  clock : Tid → Nat := fun _ => 0
  misused : Bool := false

namespace NonDetSet

/-- `non_det_thread_set::insert`. -/
def insert (n : NonDetSet) (tid : Tid) (clock : Nat) : NonDetSet :=
  { tids := n.tids ++ [tid]
    keys := n.keys.insert tid
    clock := Function.update n.clock tid clock
    misused := n.misused || decide (tid ∈ n.tids) }

/-- `non_det_thread_set::erase`; a tid that is not there is left alone. -/
def erase (n : NonDetSet) (tid : Tid) : NonDetSet :=
  if tid ∈ n.tids then
    { n with tids := n.tids.erase tid, keys := n.keys.erase tid, clock := Function.update n.clock tid 0 }
  else { n with misused := true }

/-- The map after `non_det_thread_set::get_clock`, which makes an entry when there is none; the clock
itself is `clock tid`. -/
def readClock (n : NonDetSet) (tid : Tid) : NonDetSet := { n with keys := n.keys.insert tid }

end NonDetSet

/-- `RRScheduler`. -/
structure Sched extends Core where
  elems : Elems
  runq : RunQueue := {}
  hpRunq : RunQueue := {}
  nonDetThds : NonDetSet := {}
  interProWakeupTids : List Tid := []
  interProWakeupFlag : Bool := false
  nNonDetWait : Nat := 0
  inSync : Bool := false
  removed : List Tid := []

/-- `wait_t::post`. -/
def WaitT.post (o : Options) (w : WaitT) : WaitT :=
  if o.enforceTurnType = 1 then { w with sem := w.sem + 1 }
  else if o.enforceTurnType = 2 ∨ o.enforceTurnType = 0 then { w with wakenUp := true }
  else if o.enforceTurnType < 0 then { w with runnable := true }
  else w

/-- The end of `wait_t::wait`: take the post, when there is one. -/
def WaitT.take (o : Options) (w : WaitT) : Option WaitT :=
  if o.enforceTurnType = 1 then
    if 0 < w.sem then some { w with sem := w.sem - 1 } else none
  else if o.enforceTurnType = 2 ∨ o.enforceTurnType = 0 then
    if w.wakenUp then some { w with wakenUp := false } else none
  else if o.enforceTurnType < 0 then
    if w.runnable then some w else none
  else some w

namespace Sched

section Methods

variable (o : Options) (s : Sched)

/-- `runq.push_back`. -/
def pushRunq (tid : Tid) : Sched :=
  { s with elems := (s.runq.pushBack s.elems tid).1, runq := (s.runq.pushBack s.elems tid).2 }

/-- `hp_runq.push_back`. -/
def pushHpRunq (tid : Tid) : Sched :=
  { s with elems := (s.hpRunq.pushBack s.elems tid).1, hpRunq := (s.hpRunq.pushBack s.elems tid).2 }

/-- `runq.insert_yield`. -/
def insertYield (tid : Tid) : Option Sched :=
  (s.runq.insertYield s.elems tid).map fun r => { s with elems := r.1, runq := r.2 }

/-- `runq.pop_front`. -/
def popRunq : Option Sched :=
  (s.runq.popFront s.elems).map fun r => { s with elems := r.1, runq := r.2 }

/-- `hp_runq.pop_front`. -/
def popHpRunq : Option Sched :=
  (s.hpRunq.popFront s.elems).map fun r => { s with elems := r.1, hpRunq := r.2 }

/-- `waits[tid].post()`. -/
def post (tid : Tid) : Sched :=
  { s with waits := Function.update s.waits tid ((s.waits tid).post o) }

/-- Write `woken_up_from_hp_queue_flag`. -/
def setFlag (tid : Tid) (value : Bool) : Sched :=
  { s with
    waits := Function.update s.waits tid { s.waits tid with wokenUpFromHpQueueFlag := value } }

/-- Write the status of an element. -/
def setStatus (tid : Tid) (status : ThdStatus) : Sched :=
  { s with elems := MinSmt.setStatus s.elems tid status }

/-- A thread that `signal` or `fireTimeouts` took from `waitq` becomes runnable. -/
def makeRunnable (tid : Tid) : Sched :=
  if 0 ≤ o.enforceTurnType then
    if o.highPriority = true ∧ tid ≠ 1 then s.pushHpRunq tid else s.pushRunq tid
  else s.post o tid

/-- `RRScheduler::signal`. -/
def signal (chan : Chan) (all : Bool) : Sched :=
  let r := s.toCore.signal chan all
  r.2.foldl (makeRunnable o) { s with toCore := r.1 }

/-- `RRScheduler::fireTimeouts`. -/
def fireTimeouts : Sched :=
  let r := s.toCore.fireTimeouts
  r.2.foldl (makeRunnable o) { s with toCore := r.1 }

/-- `runq.push_back` of a thread that had been removed. -/
def returnToRunq (tid : Tid) : Sched :=
  { s.pushRunq tid with removed := s.removed.erase tid }

/-- `non_det_thds.erase`. -/
def eraseNonDet (tid : Tid) : Sched := { s with nonDetThds := s.nonDetThds.erase tid }

/-- What `non_det_thds.get_clock` leaves. -/
def readClock (tid : Tid) : Sched := { s with nonDetThds := s.nonDetThds.readClock tid }

/-- The body of the loop of `check_wakeup`. -/
def bringBack (tid : Tid) : Sched :=
  if s.runq.isIn s.elems tid then s
  else
    let s := if 0 ≤ o.enforceTurnType then s.returnToRunq tid else s.post o tid
    if o.enforceNonDetClockBound then s.eraseNonDet tid else s

/-- `RRScheduler::check_wakeup`; `order` is the iteration order of the unordered set. -/
def checkWakeup (order : List Tid) : Sched :=
  if s.interProWakeupFlag then
    { order.foldl (bringBack o) s with interProWakeupTids := [], interProWakeupFlag := false }
  else s

/-- `RRScheduler::incTurnCount` up to its `check_wakeup`. -/
def tickAndFire : Sched := fireTimeouts o { s with toCore := s.toCore.tick }

/-- `RRScheduler::incTurnCount`. -/
def incTurnCount (order : List Tid) : Sched := (s.tickAndFire o).checkWakeup o order

/-- `RRScheduler::checkNonDetBound`. -/
def checkNonDetBound : Sched :=
  match o.enforceNonDetClockBound, s.nonDetThds.tids with
  | true, tid :: _ =>
    if (s.nonDetThds.clock tid + o.nonDetClockBound) % unsignedMod < s.turnCount then
      let s := s.readClock tid
      (if 0 ≤ o.enforceTurnType then s.returnToRunq tid else s).eraseNonDet tid
    else s.readClock tid
  | _, _ => s

/-- Remove the calling thread's element, from the queue its flag names. -/
def popOwn (tid : Tid) : Option Sched :=
  if (s.waits tid).wokenUpFromHpQueueFlag then s.popHpRunq.map fun s => s.setFlag tid false
  else s.popRunq

/-- `RRScheduler::next` before its `check_wakeup`, when the front has not been popped yet. -/
def nextPop (tid : Tid) : Option Sched :=
  if 0 ≤ o.enforceTurnType then
    let status := if (s.elems tid).status = .runningReg then .runnable else .interProStop
    (s.setStatus tid status).popOwn tid
  else some s

/-- "Process run queue structure" of `RRScheduler::putTurn`. -/
def requeue (tid : Tid) : Strategy → Option Sched
  | .currentThread => some s
  | .create => some s
  | .yield => (s.popOwn tid).bind fun s => s.insertYield tid
  | .default => (s.popOwn tid).map fun s => s.pushRunq tid
  | .currentRole => (s.popOwn tid).map fun s => s.pushRunq tid

/-- `RRScheduler::putTurn`, not at a thread's end, up to its call of `next`. -/
def putTurn (tid : Tid) (strategy : Strategy) : Option Sched :=
  if 0 ≤ o.enforceTurnType then
    ((s.setStatus tid .runnable).requeue tid strategy).map (checkNonDetBound o)
  else some (s.checkNonDetBound o)

/-- `signal((void*)pthread_self())`. -/
def signalJoiner (tid : Tid) : Sched :=
  match s.tm.tToP tid with
  | some th => s.signal o (.thread th) false
  | none => s

/-- `RRScheduler::putTurn` at a thread's end, up to its call of `next`. -/
def finish (tid : Tid) : Sched :=
  let s := s.signalJoiner o tid
  let s : Sched := { s with tm := s.tm.zombify tid }
  s.checkNonDetBound o

/-- `RRScheduler::putTurn` at a thread's end, up to the `check_wakeup` of `next`. -/
def putTurnAtEnd (tid : Tid) : Option Sched := (s.finish o tid).nextPop o tid

/-- `RRScheduler::wait` up to its call of `next`. -/
def enterWaitq (tid : Tid) (chan : Option Chan) (timeout : Nat) (order : List Tid) : Sched :=
  let s := s.incTurnCount o order
  let s : Sched := { s with toCore := s.toCore.enqueue tid chan timeout }
  if o.enforceTurnType < 0 then
    { s with waits := Function.update s.waits tid { s.waits tid with runnable := false } }
  else s

/-- `RRScheduler::wait` up to the `check_wakeup` of `next`. -/
def wait (tid : Tid) (chan : Option Chan) (timeout : Nat) (order : List Tid) : Option Sched :=
  (s.enterWaitq o tid chan timeout order).nextPop o tid

/-- The first statement of `RRScheduler::block` after it has got the turn. -/
def enterNonDet (tid : Tid) : Sched :=
  if o.enforceNonDetClockBound then
    { s with nonDetThds := s.nonDetThds.insert tid s.turnCount }
  else s

/-- `RRScheduler::block`, once it has the turn, up to the `check_wakeup` of `next`. -/
def block (tid : Tid) (order : List Tid) : Option Sched :=
  (((s.enterNonDet o tid).incTurnCount o order).nextPop o tid).map fun s =>
    if 0 ≤ o.enforceTurnType then { s with removed := s.removed ++ [tid] } else s

/-- `RRScheduler::idleThreadCondWait` after `tryPutTurn`, up to its call of `next`. -/
def enterIdle (tid : Tid) : Sched :=
  { s with toCore := s.toCore.enqueue tid (some .idleCond) forever }

/-- `RRScheduler::idleThreadCondWait` after `tryPutTurn`, up to the `check_wakeup` of `next`. -/
def idleEnqueue (tid : Tid) : Option Sched := (s.enterIdle tid).nextPop o tid

/-- `RRScheduler::wakeUpIdleThread`, when the idle thread is not done. -/
def wakeUpIdleThread : Sched :=
  let r := s.toCore.wakeIdle
  r.2.foldl (fun s tid => if 0 ≤ o.enforceTurnType then s.pushRunq tid else s.post o tid)
    { s with toCore := r.1 }

/-- `Scheduler::create`. -/
def create (th : PthreadT) (threadFunc : ThreadFunc) : Sched :=
  let tid := s.tm.nthread
  let s : Sched :=
    { s with
      tm := s.tm.create o.wakeamapPlus th threadFunc
      elems := Function.update s.elems tid {} }
  if 0 ≤ o.enforceTurnType then
    if o.highPriority then s.pushHpRunq tid else s.pushRunq tid
  else s

/-- `RRScheduler::interProStart`: the result `isHead`, and the new status. -/
def interProStart (tid : Tid) : Bool × Sched :=
  if (s.elems tid).status = .runnable then (false, s.setStatus tid .interProStop)
  else (true, s.setStatus tid .runningInterPro)

/-- `RRScheduler::interProEnd`. -/
def interProEnd (tid : Tid) : Sched := s.setStatus tid .runnable

/-- `RRScheduler::wakeup`. -/
def wakeup (tid : Tid) : Sched :=
  { s with
    interProWakeupTids :=
      if tid ∈ s.interProWakeupTids then s.interProWakeupTids else s.interProWakeupTids ++ [tid]
    interProWakeupFlag := true }

/-- `RRScheduler::childForkReturn`, in the child. `runq.deep_clear` frees every element, so the
elements `hp_runq` still points to are gone; their links were cleared before they were freed. The
removed threads are not there in the child. -/
def childForkReturn (mainTh : PthreadT) : Sched :=
  let s : Sched :=
    { s with
      tm := s.tm.reset o.wakeamapPlus mainTh
      waitq := []
      runq := {}
      elems := fun _ => {}
      removed := [] }
  let s := (s.setStatus mainThreadTid .runningReg).pushRunq mainThreadTid
  { s with waits := fun t => (s.waits t).reset }

end Methods

/-! ### One round of the loop of `nextRunnable` -/

/-- How a round of the loop ends. -/
inductive Pick
  /-- Go round again, with this strategy. -/
  | again (s : Sched) (strategy : Strategy)
  /-- Return this thread. -/
  | grant (s : Sched) (tid : Tid)
  /-- Return `InvalidTid`. -/
  | invalid
  /-- `exit(1)`: there is no idle thread to wake. -/
  | exit
  /-- `pthread_exit(0)`: the idle thread is done. -/
  | threadExit
  /-- A null pointer or the end of a map is followed. -/
  | crash

section NextRunnable

variable (o : Options) (s : Sched)

/-- Remember a thread that was popped because it is in an external call. -/
def noteRemoved (tid : Tid) : Sched :=
  { s.enterNonDet o tid with removed := s.removed ++ [tid] }

/-- Let the head element run. -/
def grantHead (tid : Tid) : Sched :=
  if (s.elems tid).status = .runnable then s.setStatus tid .runningReg else s

/-- "Process one head element" of `hp_runq`. -/
def pickHp (strategy : Strategy) : Pick :=
  match s.hpRunq.head with
  | none => .crash
  | some head =>
    if (s.elems head).status = .interProStop then
      match s.popHpRunq with
      | some s => .again (s.noteRemoved o head) strategy
      | none => .crash
    else .grant ((s.grantHead head).setFlag head true) head

/-- "Process one head element" of `runq`. -/
def pickRunq (strategy : Strategy) : Pick :=
  match s.runq.head with
  | none => .crash
  | some head =>
    if (s.elems head).status = .interProStop then
      match s.popRunq with
      | some s => .again (s.noteRemoved o head) strategy
      | none => .crash
    else .grant (s.grantHead head) head

/-- The branch for `PUTTURN_STRATEGY_CURRENT_ROLE`. -/
def pickRole (self : Tid) (strategy : Strategy) : Pick :=
  match s.tm.tToR self, s.runq.head with
  | some role, some head =>
    if (s.elems head).status = .interProStop then
      match s.popRunq with
      | some s => .again (s.noteRemoved o head) strategy
      | none => .crash
    else
      match s.tm.tToR head with
      | none => .crash
      | some headRole =>
        if role = headRole then .grant (s.grantHead head) head
        else
          match s.popRunq with
          | some s => .again (s.pushRunq head) strategy
          | none => .crash
  | _, _ => .crash

/-- The test of the first branch of `nextRunnable`. -/
def FromHpRunq (self : Tid) (strategy : Strategy) : Prop :=
  o.highPriority = true ∧ s.hpRunq.empty = false ∧
    decide (strategy = .currentThread) = (s.waits self).wokenUpFromHpQueueFlag ∧
    strategy ≠ .currentRole

instance (self : Tid) (strategy : Strategy) : Decidable (FromHpRunq o s self strategy) :=
  inferInstanceAs (Decidable (_ ∧ _ ∧ _ ∧ _))

/-- One round of the loop of `RRScheduler::nextRunnable`, run by `self`; `idleDone` is the global
`idle_done`. -/
def nextRunnable (idleDone : Bool) (self : Tid) (atThreadEnd : Bool) (strategy : Strategy) : Pick :=
  if FromHpRunq o s self strategy then s.pickHp o strategy
  else if strategy = .currentRole ∧ s.runq.empty = false then s.pickRole o self strategy
  else if s.runq.empty then
    if atThreadEnd = true ∧ (s.waitq = [] ∨ self = mainThreadTid) then .invalid
    else if o.launchIdleThread = 0 then .exit
    else if idleDone then .threadExit
    else (s.wakeUpIdleThread o).pickRunq o .default
  else if o.enforceNonDetAnnotations = true ∧ 0 < s.nNonDetWait ∧ self = idleThreadTid ∧
      s.runq.numElements = 1 ∧ s.runq.head = some idleThreadTid then
    (s.signal o .nonDetCV true).pickRunq o strategy
  else s.pickRunq o strategy

end NextRunnable

/-- `RRScheduler::RRScheduler`: the main thread is in `runq` and has the first turn. -/
def init (o : Options) (mainTh : PthreadT) : Sched :=
  let s : Sched := { tm := TidMap.init o.wakeamapPlus mainTh, elems := fun _ => {} }
  ((s.pushRunq mainThreadTid).post o mainThreadTid).setStatus mainThreadTid .runningReg

end Sched

end MinSmt
