/-
**The deterministic wrappers** (`RecorderRT<_S>` in `lib/runtime/record-runtime.cpp`), outside non-det
regions.

`RecorderRT` is a template over the scheduler; `Serializer σ` is what its wrappers use of the
scheduler while they hold the turn, and everything here is over any of them. A wrapper gives the turn
up where it calls `syncWait`, so it is cut there: `turn S o tid e stage` is what the thread does from
the moment it has the turn at `stage` to the moment it gives it up, and the `Finish` says how it gives
it up.

* `Call` — the wrappers and their arguments.
* `Loop` — the retry loops: `pthreadMutexLockHelper` and its two siblings for reader-writer locks, and
  the loops of `semWait` and `semTimedWait`.
* `Stage` — where a thread is inside a wrapper when it gets the turn.
* `turn` — one turn.

`errno` is saved and restored around the scheduler; `Result.error` is what a wrapper writes to its
`error` argument. `NDEBUG` is defined, so assertions are not part of the code.
-/

import MinSmt.Runtime.Objects

namespace MinSmt

/-! ### Calls, stages and results -/

/-- What a wrapper returns; `error` is set when the wrapper writes that argument, and `thread` is the
thread whose handle it returns. -/
structure Result where
  ret : Int := 0
  error : Option Nat := none
  thread : Option Tid := none
  deriving DecidableEq, Repr

/-- The wrappers. `cur` is the time that a timed wrapper subtracts from its deadline: the base time
that `setBaseTime` set for the thread or, when there is none, the clock. `caller` is `get_caller()`. -/
inductive Call
  | threadBegin
  | threadEnd
  | create (th : PthreadT) (threadFunc : ThreadFunc) (arg : Nat)
  | createIdle (th : PthreadT)
  | join (th : PthreadT)
  | mutexInit (mu : Nat) (kind : MutexKind)
  | mutexDestroy (mu : Nat)
  | mutexLock (mu : Nat)
  | mutexTryLock (mu : Nat)
  | mutexTimedLock (mu : Nat) (cur : Timespec) (abstime : Option Timespec)
  | mutexUnlock (mu : Nat)
  | rwlockInit (rw : Nat)
  | rwlockDestroy (rw : Nat)
  | rdlock (rw : Nat)
  | wrlock (rw : Nat)
  | tryrdlock (rw : Nat)
  | trywrlock (rw : Nat)
  | rwlockUnlock (rw : Nat)
  | barrierInit (barrier count : Nat)
  | barrierWait (barrier : Nat)
  | barrierDestroy (barrier : Nat)
  | condWait (cv mu caller : Nat)
  | condTimedWait (cv mu caller : Nat) (cur : Timespec) (abstime : Option Timespec)
  | condSignal (cv : Nat)
  | condBroadcast (cv : Nat)
  | semInit (sem value : Nat)
  | semWait (sem : Nat)
  | semTryWait (sem : Nat)
  | semTimedWait (sem : Nat) (cur : Timespec) (abstime : Option Timespec)
  | semPost (sem : Nat)
  | lineupInit (opaqueType count timeoutTurns : Nat)
  | lineupDestroy (opaqueType : Nat)
  | lineupStart (opaqueType : Nat)
  | lineupEnd (opaqueType : Nat)
  | schedYield
  | sleep (seconds : Nat)
  | usleep (usec : Nat)
  | nanosleep (req : Option Timespec)
  | dummySync
  | idleSleep
  | idleCondWait
  deriving DecidableEq, Repr

/-- The loops that try, wait and try again. `relock` is the end of a wait on a condition variable, with
the value that the wrapper will return. -/
inductive Loop
  | mutexLock (mu : Nat)
  | mutexTimedLock (mu timeout : Nat)
  | rdlock (rw : Nat)
  | wrlock (rw : Nat)
  | semWait (sem : Nat)
  | semTimedWait (sem timeout : Nat)
  | relock (cv mu savedRet : Nat)
  deriving DecidableEq, Repr

/-- Where a thread is inside a wrapper when it gets the turn. -/
inductive Stage
  /-- At the beginning. -/
  | called (call : Call)
  /-- Back from the `syncWait` of a loop. -/
  | retry (loop : Loop)
  /-- Back from the `syncWait` of a condition variable. -/
  | condWoken (timed : Bool) (cv mu : Nat) (role : AddrNRole)
  /-- Back from the `syncWait` of a barrier. -/
  | barrierWoken (barrier : Nat)
  /-- The last thread at a barrier, back from `getTurn`. -/
  | barrierLast (barrier : Nat)
  /-- Back from the `wait` of `pthreadJoin`. -/
  | joining (th : PthreadT)
  /-- Back from the `wait` of a sleep. -/
  | slept
  /-- Back from the `syncWait` of `lineupStart`. -/
  | lineupWoken (opaqueType : Nat)
  deriving DecidableEq, Repr

/-- How a thread gives the turn up. -/
inductive Finish
  /-- `SCHED_TIMER_END`, and the wrapper returns; the flag is for `pthread_create`. -/
  | done (isCreate : Bool) (result : Result)
  /-- `wait`, and the wrapper goes on at the stage. -/
  | wait (chan : Option Chan) (timeout : Nat) (stage : Stage)
  /-- `putTurn(); getTurn();`, and the wrapper goes on at the stage. -/
  | bounce (stage : Stage)
  /-- `SCHED_TIMER_THREAD_END`. -/
  | ended
  /-- `incTurnCount(); putTurn();`, and the function returns. -/
  | release
  /-- `idle_cond_wait`. -/
  | idle
  /-- The process ends. -/
  | exit
  deriving DecidableEq, Repr

/-- The role of the idle thread. -/
def idleThreadFunc : ThreadFunc := 1

/-- `PTHREAD_BARRIER_SERIAL_THREAD`. -/
def barrierSerialThread : Int := -1

/-! ### What a wrapper uses of the scheduler -/

/-- The class `_S` that `RecorderRT<_S>` derives from, as its wrappers use it while they hold the
turn. -/
structure Serializer (σ : Type) where
  core : σ → Core
  signal : σ → Chan → Bool → σ
  incTurnCount : σ → σ
  create : σ → PthreadT → ThreadFunc → σ
  /-- `TidMap::reap`, which the scheduler calls `join`. -/
  join : σ → PthreadT → σ

/-- What a thread with the turn reads and writes: the scheduler, the shared maps and its own
variables. -/
structure Env (σ : Type) where
  sched : σ
  shared : Shared
  self : Local

section Wrappers

variable {σ : Type} (S : Serializer σ) (o : Options) (tid : Tid)

namespace Env

/-- `syncSignal`. -/
def signal (e : Env σ) (chan : Chan) (all : Bool) : Env σ :=
  { e with sched := S.signal e.sched chan all }

/-- `_S::incTurnCount`. -/
def incTurnCount (e : Env σ) : Env σ := { e with sched := S.incTurnCount e.sched }

/-- What `_S::wait` returned to the thread. -/
def wakeRet (e : Env σ) : Nat := ((S.core e.sched).waits tid).wakeReason.toInt

/-- `_S::getTurnCount() + relTimeToTurn(..)`. -/
def deadline (e : Env σ) (reltime : Option Timespec) : Option Nat :=
  (relTimeToTurn o (S.core e.sched).tm.nthread reltime).map fun turns =>
    ((S.core e.sched).getTurnCount + turns) % unsignedMod

/-- The role of the calling thread; every thread has one when `wakeamap_plus` is set. -/
def roleOf (e : Env σ) (caller : Nat) : AddrNRole :=
  ⟨caller, ((S.core e.sched).tm.tToR tid).getD 0⟩

end Env

/-! ### The loops -/

namespace Loop

/-- What the loop waits on. -/
def chan : Loop → Chan
  | .mutexLock mu => .mutex mu
  | .mutexTimedLock mu _ => .mutex mu
  | .rdlock rw => .rwlock rw
  | .wrlock rw => .rwlock rw
  | .semWait sem => .sem sem
  | .semTimedWait sem _ => .sem sem
  | .relock _ mu _ => .mutex mu

/-- Until which turn it waits. -/
def timeout : Loop → Nat
  | .mutexTimedLock _ timeout => timeout
  | .semTimedWait _ timeout => timeout
  | _ => forever

/-- The try-operation. -/
def attempt (sh : Shared) : Loop → Option Shared
  | .mutexLock mu => ((sh.mutex mu).trylock tid).map (sh.setMutex mu)
  | .mutexTimedLock mu _ => ((sh.mutex mu).trylock tid).map (sh.setMutex mu)
  | .rdlock rw => ((sh.rwlock rw).tryrdlock tid).map (sh.setRWLock rw)
  | .wrlock rw => ((sh.rwlock rw).trywrlock tid).map (sh.setRWLock rw)
  | .semWait sem => sh.semTrywait sem
  | .semTimedWait sem _ => sh.semTrywait sem
  | .relock _ mu _ => ((sh.mutex mu).trylock tid).map (sh.setMutex mu)

/-- The body of the loop before `syncWait`. The statement `satisfyingSem == NULL` there does
nothing. -/
def beforeWait (sh : Shared) : Loop → Shared
  | .semWait sem => sh.addSem sem 1
  | .semTimedWait sem _ => sh.addSem sem 1
  | _ => sh

/-- The wrapper after the loop; `pthreadMutexLock` and the cond waits ignore what the loop returned. -/
def leave (e : Env σ) (ret : Result) : Loop → Env σ × Finish
  | .mutexLock _ =>
    let self :=
      if o.schedulingPolicy.testBit 0 = true ∧ e.self.noCSWholeLocal = false then
        { e.self with inCSLevel := e.self.inCSLevel + 1 }
      else e.self
    ({ e with self := self }, .done false {})
  | .mutexTimedLock _ _ => (e, .done false ret)
  | .rdlock _ => (e, .done false {})
  | .wrlock _ => (e, .done false {})
  | .semWait _ => (e, .done false {})
  | .semTimedWait _ _ => (e, .done false ret)
  | .relock _ _ savedRet => (e, .done false { ret := savedRet })

/-- The wrapper when `syncWait` returned `ETIMEDOUT`. The loop of `semWait` does not ask. -/
def timedOut (e : Env σ) (loop : Loop) : Env σ × Finish :=
  match loop with
  | .semTimedWait sem _ =>
    loop.leave o { e with shared := e.shared.addSem sem (-1) } { ret := -1, error := some etimedout }
  | _ => loop.leave o e { ret := etimedout }

/-- From the condition of the loop on. -/
def enter (e : Env σ) (loop : Loop) : Env σ × Finish :=
  match loop.attempt tid e.shared with
  | some shared => loop.leave o { e with shared := shared } {}
  | none => ({ e with shared := loop.beforeWait e.shared },
      .wait (some loop.chan) loop.timeout (.retry loop))

/-- From `syncWait` on. -/
def resume (e : Env σ) (loop : Loop) : Env σ × Finish :=
  match loop with
  | .semWait _ => loop.enter o tid e
  | _ => if e.wakeRet S tid = etimedout then loop.timedOut o e else loop.enter o tid e

end Loop

/-! ### The wrappers -/

/-- `pthreadMutexTimedLock`. -/
def mutexTimedLock (e : Env σ) (mu : Nat) (cur : Timespec) : Option Timespec → Env σ × Finish
  | none => (Loop.mutexLock mu).enter o tid e
  | some abstime =>
    match e.deadline S o (some (timeDiff cur abstime)) with
    | some timeout => (Loop.mutexTimedLock mu timeout).enter o tid e
    | none => (e, .exit)

/-- `pthreadMutexUnlock`. -/
def mutexUnlock (e : Env σ) (mu : Nat) : Env σ × Finish :=
  let r := (e.shared.mutex mu).unlock tid
  let self :=
    if o.schedulingPolicy.testBit 0 = true ∧ 0 < e.self.inCSLevel ∧
        e.self.noCSWholeLocal = false then
      { e.self with inCSLevel := e.self.inCSLevel - 1 }
    else e.self
  let e : Env σ := { e with shared := e.shared.setMutex mu r.1, self := self }
  (e.signal S (.mutex mu) false, .done false { ret := r.2 })

/-- `__pthread_rwlock_unlock`. -/
def rwlockUnlock (e : Env σ) (rw : Nat) : Env σ × Finish :=
  let e : Env σ := { e with shared := e.shared.setRWLock rw ((e.shared.rwlock rw).unlock tid) }
  (e.signal S (.rwlock rw) false, .done false {})

/-- A try-operation on a lock: `0`, or `EBUSY`. `__pthread_rwlock_tryrdlock` tries for writing. -/
def tryOnce (e : Env σ) (attempt : Option Shared) : Env σ × Finish :=
  match attempt with
  | some shared => ({ e with shared := shared }, .done false {})
  | none => (e, .done false { ret := ebusy })

/-- `pthreadBarrierWait`. -/
def barrierWait (e : Env σ) (barrier : Nat) : Env σ × Finish :=
  let e := e.incTurnCount S
  match e.shared.barriers barrier with
  | none => (e, .exit)
  | some b =>
    let narrived := b.narrived + 1
    let set (n : Nat) : Env σ := { e with shared := { e.shared with
      barriers := Function.update e.shared.barriers barrier (some { b with narrived := n }) } }
    if b.count = narrived then
      ((set 0).signal S (.barrier barrier) true, .bounce (.barrierLast barrier))
    else (set narrived, .wait (some (.barrier barrier)) forever (.barrierWoken barrier))

/-- The bookkeeping of `wakeamap_plus` when a thread is about to wait on a condition variable. -/
def noteWait (sh : Shared) (cv : Nat) (role : AddrNRole) : Shared :=
  if o.wakeamapPlus then sh.noteBlocked cv role else sh

/-- `pthreadCondWait` up to its `syncWait`. -/
def condWait (e : Env σ) (cv mu caller : Nat) : Env σ × Finish :=
  let role := e.roleOf S tid caller
  let sh := noteWait o (e.shared.addCond cv 1) cv role
  let e : Env σ := { e with shared := sh.setMutex mu ((sh.mutex mu).unlock tid).1 }
  ((e.signal S (.mutex mu) false).incTurnCount S,
    .wait (some (.cond cv)) forever (.condWoken false cv mu role))

/-- `pthreadCondTimedWait` up to its `syncWait`. -/
def condTimedWait (e : Env σ) (cv mu caller : Nat) (cur : Timespec) :
    Option Timespec → Env σ × Finish
  | none => condWait S o tid e cv mu caller
  | some abstime =>
    let role := e.roleOf S tid caller
    let sh := e.shared.setMutex mu ((e.shared.mutex mu).unlock tid).1
    let e : Env σ := { e with shared := noteWait o (sh.addCond cv 1) cv role }
    let e := (e.incTurnCount S).signal S (.mutex mu) false
    match e.deadline S o (some (timeDiff cur abstime)) with
    | some timeout => (e, .wait (some (.cond cv)) timeout (.condWoken true cv mu role))
    | none => (e, .exit)

/-- What `pthreadCondTimedWait` does when it sees that it timed out. -/
def condTimedOut (e : Env σ) (cv : Nat) (role : AddrNRole) : Env σ :=
  let sh := e.shared.addCond cv (-1)
  if o.wakeamapPlus then
    { e with
      shared := sh.noteUnblocked cv role
      self := if sh.roleCount role - 1 ≤ 0 then { e.self with satisfyingRole := none } else e.self }
  else { e with shared := sh }

/-- `pthreadCondWait` and `pthreadCondTimedWait` from their `syncWait` on. -/
def condWoken (e : Env σ) (timed : Bool) (cv mu : Nat) (role : AddrNRole) : Env σ × Finish :=
  if timed then
    let ret := e.wakeRet S tid
    let e := if ret = WakeReason.timedout.toInt then condTimedOut o e cv role else e
    (Loop.relock cv mu ret).enter o tid e
  else (Loop.relock cv mu 0).enter o tid e

/-- Which role the signalling thread goes on for, with `wakeamap_plus`. -/
def chooseRole (sh : Shared) (self : Local) (role : RolePtr) : Shared × Local :=
  match sh.blockedCvCountMap role.value with
  | some newval =>
    if 0 < newval then
      match sh.blockedCvLineMap self.satisfyingCV with
      | some old =>
        if self.satisfyingRole.isSome = true ∧ self.satisfyingRole ≠ some role then
          -- `operator[]` makes the entry of the old role when there is none
          (sh.setRoleCount old.value (some (sh.roleCount old.value)),
            if sh.roleCount old.value < newval then { self with satisfyingRole := some role }
            else self)
        else (sh, { self with satisfyingRole := some role })
      | none => (sh, { self with satisfyingRole := some role })
    else (sh, self)
  | none => (sh, self)

/-- The counts of `pthreadCondSignal`: one waiter fewer, and with `wakeamap_plus` one fewer of its
role. -/
def noteSignal (sh : Shared) (cv : Nat) : Shared × Option RolePtr :=
  let sh := if 0 < sh.condMap cv then sh.addCond cv (-1) else sh
  match o.wakeamapPlus, sh.blockedCvLineMap (some cv) with
  | true, some role => (sh.noteUnblocked cv role.value, some role)
  | _, _ => (sh, none)

/-- What `pthreadCondSignal` does for bit `0x02` of the policy: while threads wait on the condition
variable, the calling thread goes on. -/
def goOnFor (sh : Shared) (self : Local) (cv : Nat) (role : Option RolePtr) : Shared × Local :=
  if o.schedulingPolicy.testBit 1 then
    if o.wakeamapPlus = false ∧ 0 < sh.condMap cv then (sh, { self with satisfyingCV := some cv })
    else
      match role with
      | some role => chooseRole sh self role
      | none => (sh, self)
  else (sh, self)

/-- `pthreadCondSignal`. -/
def condSignal (e : Env σ) (cv : Nat) : Env σ × Finish :=
  let e := e.signal S (.cond cv) false
  let counted := noteSignal o e.shared cv
  let chosen := goOnFor o counted.1 e.self cv counted.2
  ({ e with shared := chosen.1, self := chosen.2 }, .done false {})

/-- `pthreadCondBroadcast`. -/
def condBroadcast (e : Env σ) (cv : Nat) : Env σ × Finish :=
  let e := e.signal S (.cond cv) true
  let sh := if o.wakeamapPlus then e.shared.setLine cv none else e.shared
  let self :=
    if e.self.satisfyingCV = some cv then { e.self with satisfyingCV := none } else e.self
  ({ e with shared := { sh with condMap := Function.update sh.condMap cv 0 }, self := self },
    .done false {})

/-- `semTryWait`. -/
def semTryWait (e : Env σ) (sem : Nat) : Env σ × Finish :=
  match e.shared.semTrywait sem with
  | some shared => ({ e with shared := shared }, .done false {})
  | none => (e, .done false { ret := -1, error := some eagain })

/-- `semTimedWait`. -/
def semTimedWait (e : Env σ) (sem : Nat) (cur : Timespec) : Option Timespec → Env σ × Finish
  | none => (Loop.semWait sem).enter o tid e
  | some abstime =>
    match e.deadline S o (some (timeDiff cur abstime)) with
    | some timeout => (Loop.semTimedWait sem timeout).enter o tid e
    | none => (e, .exit)

/-- `semPost`. -/
def semPost (e : Env σ) (sem : Nat) : Env σ × Finish :=
  let e : Env σ := { e with shared := e.shared.setSem sem (e.shared.sem sem + 1) }
  let e := e.signal S (.sem sem) false
  let sh := if 0 < e.shared.semMap sem then e.shared.addSem sem (-1) else e.shared
  let self :=
    if o.schedulingPolicy.testBit 1 = true ∧ 0 < sh.semMap sem then
      { e.self with satisfyingSem := some sem }
    else e.self
  ({ e with shared := sh, self := self }, .done false {})

/-- Write `refcnt_bars[opaque_type]`. -/
def setLineup (e : Env σ) (opaqueType : Nat) (b : Option Lineup) : Env σ :=
  { e with shared := { e.shared with
    refcntBars := Function.update e.shared.refcntBars opaqueType b } }

/-- `lineupStart` up to its `syncWait`. -/
def lineupStart (e : Env σ) (opaqueType : Nat) : Env σ × Finish :=
  match e.shared.refcntBars opaqueType with
  | none => (e, .exit)
  | some b =>
    let b : Lineup := { b with nactive := (b.nactive + 1) % unsignedMod }
    if b.nactive = b.count then
      if b.arriving then
        let e := setLineup e opaqueType (some { b with arriving := false })
        (e.signal S (.lineup opaqueType) true, .done false {})
      else (setLineup e opaqueType (some b), .done false {})
    else if b.arriving then
      let timeout := ((S.core e.sched).getTurnCount + b.timeout) % unsignedMod
      (setLineup e opaqueType (some b),
        .wait (some (.lineup opaqueType)) timeout (.lineupWoken opaqueType))
    else (setLineup e opaqueType (some b), .done false {})

/-- `lineupStart` from its `syncWait` on. -/
def lineupWoken (e : Env σ) (opaqueType : Nat) : Env σ × Finish :=
  match e.shared.refcntBars opaqueType with
  | none => (e, .exit)
  | some b =>
    if b.nactive < b.count ∧ b.arriving = true then
      let e := setLineup e opaqueType (some { b with arriving := false })
      (e.signal S (.lineup opaqueType) true, .done false {})
    else (e, .done false {})

/-- `lineupEnd`. -/
def lineupEnd (e : Env σ) (opaqueType : Nat) : Env σ × Finish :=
  match e.shared.refcntBars opaqueType with
  | none => (e, .exit)
  | some b =>
    let nactive := (b.nactive + (unsignedMod - 1)) % unsignedMod
    let arriving := b.arriving || decide (nactive = 0)
    (setLineup e opaqueType (some { b with nactive := nactive, arriving := arriving }),
      .done false {})

/-- `__sleep`, `__usleep` and `__nanosleep` are this, each with its own `timespec`. -/
def sleepFor (e : Env σ) (ts : Option Timespec) : Env σ × Finish :=
  if 0 < o.enforceTurnType then
    match e.deadline S o ts with
    | some timeout => (e, .wait none timeout .slept)
    | none => (e, .exit)
  else (e, .done false {})

/-- The `timespec` of `__sleep`. -/
def sleepTimespec (seconds : Nat) : Timespec := ⟨seconds, 0⟩

/-- The `timespec` of `__usleep`; the product is one of two `unsigned`. -/
def usleepTimespec (usec : Nat) : Timespec := ⟨0, ((1000 * usec) % unsignedMod : Nat)⟩

/-- `pthreadJoin`, before and after each `wait`. -/
def pthreadJoin (e : Env σ) (th : PthreadT) : Env σ × Finish :=
  if (S.core e.sched).tm.zombie th then
    ({ e with sched := S.join e.sched th }, .done false {})
  else (e, .wait (some (.thread th)) forever (.joining th))

/-- `pthread_mutex_destroy` and `pthread_rwlock_destroy` of a lock in use. -/
def destroyRet (held : Bool) : Result := { ret := if held then ebusy else 0 }

/-- A wrapper from its beginning. -/
def callTurn (e : Env σ) : Call → Env σ × Finish
  | .threadBegin => (e, .done false {})
  | .threadEnd => (e, .ended)
  | .create th threadFunc _ =>
    ({ e with sched := S.create e.sched th threadFunc },
      .done true { thread := some (S.core e.sched).tm.nthread })
  | .createIdle th =>
    ({ e with
      sched := S.create e.sched th idleThreadFunc
      shared := { e.shared with idleCreated := true } }, .done true {})
  | .join th => pthreadJoin S e th
  | .mutexInit mu kind => ({ e with shared := e.shared.setMutex mu { kind := kind } }, .done false {})
  | .mutexDestroy mu => (e, .done false (destroyRet (e.shared.mutex mu).held))
  | .mutexLock mu => (Loop.mutexLock mu).enter o tid e
  | .mutexTryLock mu => tryOnce e (((e.shared.mutex mu).trylock tid).map (e.shared.setMutex mu))
  | .mutexTimedLock mu cur abstime => mutexTimedLock S o tid e mu cur abstime
  | .mutexUnlock mu => mutexUnlock S o tid e mu
  | .rwlockInit rw => ({ e with shared := e.shared.setRWLock rw {} }, .done false {})
  | .rwlockDestroy rw => (e, .done false (destroyRet (e.shared.rwlock rw).held))
  | .rdlock rw => (Loop.rdlock rw).enter o tid e
  | .wrlock rw => (Loop.wrlock rw).enter o tid e
  | .tryrdlock rw => tryOnce e (((e.shared.rwlock rw).trywrlock tid).map (e.shared.setRWLock rw))
  | .trywrlock rw => tryOnce e (((e.shared.rwlock rw).trywrlock tid).map (e.shared.setRWLock rw))
  | .rwlockUnlock rw => rwlockUnlock S tid e rw
  | .barrierInit barrier count =>
    ({ e with shared := { e.shared with
      barriers := Function.update e.shared.barriers barrier (some { count := count }) } },
      .done false {})
  | .barrierWait barrier => barrierWait S e barrier
  | .barrierDestroy barrier =>
    ({ e with shared := { e.shared with
      barriers := Function.update e.shared.barriers barrier none } }, .done false {})
  | .condWait cv mu caller => condWait S o tid e cv mu caller
  | .condTimedWait cv mu caller cur abstime => condTimedWait S o tid e cv mu caller cur abstime
  | .condSignal cv => condSignal S o e cv
  | .condBroadcast cv => condBroadcast S o e cv
  | .semInit sem value => ({ e with shared := e.shared.setSem sem value }, .done false {})
  | .semWait sem => (Loop.semWait sem).enter o tid e
  | .semTryWait sem => semTryWait e sem
  | .semTimedWait sem cur abstime => semTimedWait S o tid e sem cur abstime
  | .semPost sem => semPost S o e sem
  | .lineupInit opaqueType count timeoutTurns =>
    (setLineup e opaqueType (some { count := count, timeout := timeoutTurns }), .done false {})
  | .lineupDestroy opaqueType => (setLineup e opaqueType none, .done false {})
  | .lineupStart opaqueType => lineupStart S e opaqueType
  | .lineupEnd opaqueType => lineupEnd e opaqueType
  | .schedYield => ({ e with self := { e.self with yieldThis := true } }, .done false {})
  | .sleep seconds => sleepFor S o e (some (sleepTimespec seconds))
  | .usleep usec => sleepFor S o e (some (usleepTimespec usec))
  | .nanosleep req => sleepFor S o e req
  | .dummySync => (e, .done false {})
  | .idleSleep => (e, .release)
  | .idleCondWait => (e, .idle)

/-- **One turn of a thread**, from having the turn at a stage to giving it up. -/
def turn (e : Env σ) : Stage → Env σ × Finish
  | .called call => callTurn S o tid e call
  | .retry loop => loop.resume S o tid e
  | .condWoken timed cv mu role => condWoken S o tid e timed cv mu role
  | .barrierWoken _ => (e, .done false {})
  | .barrierLast _ => (e, .done false { ret := barrierSerialThread })
  | .joining th => pthreadJoin S e th
  | .slept => (e, .done false {})
  | .lineupWoken opaqueType => lineupWoken S e opaqueType

/-! ### The loops as they run -/

section LoopTurns

variable {S o tid} {e : Env σ}

/-- **`wait` never returns `ETIMEDOUT`**: its results are `0` and `1`, so the loops always try again. -/
theorem Loop.resume_eq_enter (e : Env σ) (loop : Loop) :
    loop.resume S o tid e = loop.enter o tid e := by
  have never : e.wakeRet S tid ≠ etimedout := by
    unfold Env.wakeRet
    cases ((S.core e.sched).waits tid).wakeReason <;> decide
  unfold Loop.resume
  split
  · rfl
  · rw [if_neg never]

theorem Loop.enter_of_some {loop : Loop} {shared : Shared}
    (got : loop.attempt tid e.shared = some shared) :
    loop.enter o tid e = loop.leave o { e with shared := shared } {} := by
  rw [Loop.enter, got]

theorem Loop.enter_of_none {loop : Loop} (busy : loop.attempt tid e.shared = none) :
    loop.enter o tid e = ({ e with shared := loop.beforeWait e.shared },
      .wait (some loop.chan) loop.timeout (.retry loop)) := by
  rw [Loop.enter, busy]

/-- What the wrapper around a loop returns when the loop got what it tried for. -/
def Loop.ret : Loop → Nat
  | .relock _ _ savedRet => savedRet
  | _ => 0

theorem Loop.leave_finish (e : Env σ) (loop : Loop) :
    (loop.leave o e {}).2 = .done false { ret := loop.ret } := by
  cases loop <;> rfl

theorem Loop.leave_shared (e : Env σ) (ret : Result) (loop : Loop) :
    (loop.leave o e ret).1.shared = e.shared := by
  cases loop <;> rfl

end LoopTurns

/-! ### What every turn preserves -/

/-- What a turn signals. -/
def Stage.signals : Stage → Option Chan
  | .called (.mutexUnlock mu) => some (.mutex mu)
  | .called (.rwlockUnlock rw) => some (.rwlock rw)
  | .called (.barrierWait barrier) => some (.barrier barrier)
  | .called (.condWait _ mu _) => some (.mutex mu)
  | .called (.condTimedWait _ mu _ _ _) => some (.mutex mu)
  | .called (.condSignal cv) => some (.cond cv)
  | .called (.condBroadcast cv) => some (.cond cv)
  | .called (.semPost sem) => some (.sem sem)
  | .called (.lineupStart opaqueType) => some (.lineup opaqueType)
  | .lineupWoken opaqueType => some (.lineup opaqueType)
  | _ => none

/-- The scheduler's operations preserve a property, those on `chan` among the signals. -/
structure Keeps (chan : Option Chan) (holds : σ → Prop) : Prop where
  signal : ∀ s c all, chan = some c → holds s → holds (S.signal s c all)
  incTurnCount : ∀ s, holds s → holds (S.incTurnCount s)
  create : ∀ s th threadFunc, holds s → holds (S.create s th threadFunc)
  join : ∀ s th, holds s → holds (S.join s th)

section Keeps

variable {S o tid} {e : Env σ} {holds : σ → Prop}

theorem Loop.leave_sched (e : Env σ) (ret : Result) (loop : Loop) :
    (loop.leave o e ret).1.sched = e.sched := by
  cases loop <;> rfl

theorem Loop.enter_sched (e : Env σ) (loop : Loop) : (loop.enter o tid e).1.sched = e.sched := by
  unfold Loop.enter
  split
  · exact Loop.leave_sched _ _ loop
  · rfl

theorem Loop.resume_sched (e : Env σ) (loop : Loop) :
    (loop.resume S o tid e).1.sched = e.sched := by
  rw [Loop.resume_eq_enter, Loop.enter_sched]

theorem pthreadJoin_keeps {chan : Option Chan} (keeps : Keeps S chan holds) (before : holds e.sched)
    (th : PthreadT) : holds (pthreadJoin S e th).1.sched := by
  unfold pthreadJoin
  split
  · exact keeps.join _ th before
  · exact before

theorem sleepFor_sched (e : Env σ) (ts : Option Timespec) :
    (sleepFor S o e ts).1.sched = e.sched := by
  unfold sleepFor
  split
  · split <;> rfl
  · rfl

theorem tryOnce_sched (e : Env σ) (attempt : Option Shared) :
    (tryOnce e attempt).1.sched = e.sched := by
  cases attempt <;> rfl

theorem condWait_keeps {cv mu caller : Nat} (keeps : Keeps S (some (.mutex mu)) holds)
    (before : holds e.sched) : holds (condWait S o tid e cv mu caller).1.sched :=
  keeps.incTurnCount _ (keeps.signal _ _ _ rfl before)

theorem barrierWait_keeps {barrier : Nat} (keeps : Keeps S (some (.barrier barrier)) holds)
    (before : holds e.sched) : holds (barrierWait S e barrier).1.sched := by
  have counted : holds (S.incTurnCount e.sched) := keeps.incTurnCount _ before
  unfold barrierWait
  dsimp only
  split
  · exact counted
  · split
    · exact keeps.signal _ _ _ rfl counted
    · exact counted

theorem lineupStart_keeps {opaqueType : Nat} (keeps : Keeps S (some (.lineup opaqueType)) holds)
    (before : holds e.sched) : holds (lineupStart S e opaqueType).1.sched := by
  unfold lineupStart
  dsimp only
  split
  · exact before
  · split
    · split
      · exact keeps.signal _ _ _ rfl before
      · exact before
    · split <;> exact before

theorem lineupWoken_keeps {opaqueType : Nat} (keeps : Keeps S (some (.lineup opaqueType)) holds)
    (before : holds e.sched) : holds (lineupWoken S e opaqueType).1.sched := by
  unfold lineupWoken
  dsimp only
  split
  · exact before
  · split
    · exact keeps.signal _ _ _ rfl before
    · exact before

theorem callTurn_keeps {call : Call} (keeps : Keeps S (Stage.called call).signals holds)
    (before : holds e.sched) : holds (callTurn S o tid e call).1.sched := by
  cases call with
  | create th threadFunc _ => exact keeps.create _ _ _ before
  | createIdle th => exact keeps.create _ _ _ before
  | join th => exact pthreadJoin_keeps keeps before th
  | mutexLock mu => exact (Loop.enter_sched e _).symm ▸ before
  | mutexTryLock mu => exact (tryOnce_sched e _).symm ▸ before
  | mutexTimedLock mu cur abstime =>
    show holds (mutexTimedLock S o tid e mu cur abstime).1.sched
    unfold mutexTimedLock
    split
    · exact (Loop.enter_sched e _).symm ▸ before
    · split
      · exact (Loop.enter_sched e _).symm ▸ before
      · exact before
  | mutexUnlock mu => exact keeps.signal _ _ _ rfl before
  | rdlock rw => exact (Loop.enter_sched e _).symm ▸ before
  | wrlock rw => exact (Loop.enter_sched e _).symm ▸ before
  | tryrdlock rw => exact (tryOnce_sched e _).symm ▸ before
  | trywrlock rw => exact (tryOnce_sched e _).symm ▸ before
  | rwlockUnlock rw => exact keeps.signal _ _ _ rfl before
  | barrierWait barrier => exact barrierWait_keeps keeps before
  | condWait cv mu caller => exact condWait_keeps keeps before
  | condTimedWait cv mu caller cur abstime =>
    show holds (condTimedWait S o tid e cv mu caller cur abstime).1.sched
    unfold condTimedWait
    split
    · exact condWait_keeps keeps before
    · dsimp only
      split <;> exact keeps.signal _ _ _ rfl (keeps.incTurnCount _ before)
  | condSignal cv => exact keeps.signal _ _ _ rfl before
  | condBroadcast cv => exact keeps.signal _ _ _ rfl before
  | semWait sem => exact (Loop.enter_sched e _).symm ▸ before
  | semTryWait sem =>
    show holds (semTryWait e sem).1.sched
    unfold semTryWait
    split <;> exact before
  | semTimedWait sem cur abstime =>
    show holds (semTimedWait S o tid e sem cur abstime).1.sched
    unfold semTimedWait
    split
    · exact (Loop.enter_sched e _).symm ▸ before
    · split
      · exact (Loop.enter_sched e _).symm ▸ before
      · exact before
  | semPost sem => exact keeps.signal _ _ _ rfl before
  | lineupStart opaqueType => exact lineupStart_keeps keeps before
  | lineupEnd opaqueType =>
    show holds (lineupEnd e opaqueType).1.sched
    unfold lineupEnd
    split <;> exact before
  | sleep seconds => exact (sleepFor_sched e _).symm ▸ before
  | usleep usec => exact (sleepFor_sched e _).symm ▸ before
  | nanosleep req => exact (sleepFor_sched e _).symm ▸ before
  | _ => exact before

/-- **What the scheduler's operations preserve, every turn preserves.** -/
theorem turn_keeps {stage : Stage} (keeps : Keeps S stage.signals holds) (before : holds e.sched) :
    holds (turn S o tid e stage).1.sched := by
  cases stage with
  | called call => exact callTurn_keeps keeps before
  | retry loop => exact (Loop.resume_sched e loop).symm ▸ before
  | condWoken timed cv mu role =>
    show holds (condWoken S o tid e timed cv mu role).1.sched
    unfold condWoken
    split
    · dsimp only
      rw [Loop.enter_sched]
      split
      · unfold condTimedOut
        dsimp only
        split <;> exact before
      · exact before
    · exact (Loop.enter_sched e _).symm ▸ before
  | joining th => exact pthreadJoin_keeps keeps before th
  | lineupWoken opaqueType => exact lineupWoken_keeps keeps before
  | _ => exact before

end Keeps

/-! ### Where a thread waits -/

namespace Stage

/-- The thread got here through the wait queue. -/
def waits : Stage → Bool
  | .called _ => false
  | .barrierLast _ => false
  | _ => true

/-- What it waited on there. -/
def chan : Stage → Option Chan
  | .retry loop => some loop.chan
  | .condWoken _ cv _ _ => some (.cond cv)
  | .barrierWoken barrier => some (.barrier barrier)
  | .joining th => some (.thread th)
  | .lineupWoken opaqueType => some (.lineup opaqueType)
  | _ => none

/-- Until which turn, as far as the stage says it. -/
def timeout : Stage → Option Nat
  | .retry loop => some loop.timeout
  | .condWoken false _ _ _ => some forever
  | .barrierWoken _ => some forever
  | .joining _ => some forever
  | _ => none

end Stage

/-- The arguments of a `wait` fit the stage at which the wrapper goes on, only the last thread at a
barrier goes on without waiting, and only `threadEnd` ends the thread. -/
def Finish.Fits (stage : Stage) : Finish → Prop
  | .wait chan timeout next => next.waits = true ∧ chan = next.chan ∧
      ∀ last, next.timeout = some last → timeout = last
  | .bounce next => ∃ barrier, stage = .called (.barrierWait barrier) ∧ next = .barrierLast barrier
  | .ended => stage = .called .threadEnd
  | _ => True

section Fits

variable {S o tid} {e : Env σ} {stage : Stage}

theorem Loop.leave_fits (e : Env σ) (ret : Result) (loop : Loop) :
    (loop.leave o e ret).2.Fits stage := by
  cases loop <;> trivial

theorem Loop.enter_fits (e : Env σ) (loop : Loop) : (loop.enter o tid e).2.Fits stage := by
  unfold Loop.enter
  split
  · exact Loop.leave_fits _ _ loop
  · exact ⟨rfl, rfl, fun last same => Option.some.inj same⟩

theorem Loop.resume_fits (e : Env σ) (loop : Loop) : (loop.resume S o tid e).2.Fits stage := by
  rw [Loop.resume_eq_enter]
  exact Loop.enter_fits e loop

theorem pthreadJoin_fits (e : Env σ) (th : PthreadT) : (pthreadJoin S e th).2.Fits stage := by
  unfold pthreadJoin
  split
  · trivial
  · exact ⟨rfl, rfl, fun last same => Option.some.inj same⟩

theorem sleepFor_fits (e : Env σ) (ts : Option Timespec) : (sleepFor S o e ts).2.Fits stage := by
  unfold sleepFor
  split
  · split
    · exact ⟨rfl, rfl, fun last same => by cases same⟩
    · trivial
  · trivial

theorem callTurn_fits (e : Env σ) (call : Call) : (callTurn S o tid e call).2.Fits (.called call) := by
  cases call with
  | threadEnd => exact rfl
  | join th => exact pthreadJoin_fits e th
  | mutexLock mu => exact Loop.enter_fits e _
  | mutexTryLock mu =>
    show (tryOnce e _).2.Fits _
    unfold tryOnce
    split <;> trivial
  | mutexTimedLock mu cur abstime =>
    show (mutexTimedLock S o tid e mu cur abstime).2.Fits _
    unfold mutexTimedLock
    split
    · exact Loop.enter_fits e _
    · split
      · exact Loop.enter_fits e _
      · trivial
  | rdlock rw => exact Loop.enter_fits e _
  | wrlock rw => exact Loop.enter_fits e _
  | tryrdlock rw =>
    show (tryOnce e _).2.Fits _
    unfold tryOnce
    split <;> trivial
  | trywrlock rw =>
    show (tryOnce e _).2.Fits _
    unfold tryOnce
    split <;> trivial
  | barrierWait barrier =>
    show (barrierWait S e barrier).2.Fits _
    unfold barrierWait
    dsimp only
    split
    · trivial
    · split
      · exact ⟨barrier, rfl, rfl⟩
      · exact ⟨rfl, rfl, fun last same => Option.some.inj same⟩
  | condWait cv mu caller => exact ⟨rfl, rfl, fun last same => Option.some.inj same⟩
  | condTimedWait cv mu caller cur abstime =>
    show (condTimedWait S o tid e cv mu caller cur abstime).2.Fits _
    unfold condTimedWait
    split
    · exact ⟨rfl, rfl, fun last same => Option.some.inj same⟩
    · dsimp only
      split
      · exact ⟨rfl, rfl, fun last same => by cases same⟩
      · trivial
  | semWait sem => exact Loop.enter_fits e _
  | semTryWait sem =>
    show (semTryWait e sem).2.Fits _
    unfold semTryWait
    split <;> trivial
  | semTimedWait sem cur abstime =>
    show (semTimedWait S o tid e sem cur abstime).2.Fits _
    unfold semTimedWait
    split
    · exact Loop.enter_fits e _
    · split
      · exact Loop.enter_fits e _
      · trivial
  | lineupStart opaqueType =>
    show (lineupStart S e opaqueType).2.Fits _
    unfold lineupStart
    dsimp only
    split
    · trivial
    · split
      · split <;> trivial
      · split
        · exact ⟨rfl, rfl, fun last same => by cases same⟩
        · trivial
  | lineupEnd opaqueType =>
    show (lineupEnd e opaqueType).2.Fits _
    unfold lineupEnd
    split <;> trivial
  | sleep seconds => exact sleepFor_fits e _
  | usleep usec => exact sleepFor_fits e _
  | nanosleep req => exact sleepFor_fits e _
  | _ => trivial

/-- **A thread waits where its wrapper goes on.** -/
theorem turn_fits (e : Env σ) (stage : Stage) : (turn S o tid e stage).2.Fits stage := by
  cases stage with
  | called call => exact callTurn_fits e call
  | retry loop => exact Loop.resume_fits e loop
  | condWoken timed cv mu role =>
    show (condWoken S o tid e timed cv mu role).2.Fits _
    unfold condWoken
    split <;> exact Loop.enter_fits _ _
  | joining th => exact pthreadJoin_fits e th
  | lineupWoken opaqueType =>
    show (lineupWoken S e opaqueType).2.Fits _
    unfold lineupWoken
    split
    · trivial
    · split <;> trivial
  | _ => trivial

end Fits

end Wrappers

end MinSmt
