/-
**What the wrappers of the runtime work on** (`lib/runtime/record-runtime.cpp`).

* `Mutex`, `RWLock`, semaphores — the pthread objects, with the try-operations and the releases that
  the wrappers call. The wrappers never block in the pthread library, so these are all the
  operations there are.
* `Shared` — the objects and the runtime's own maps: `cond_map`, `sem_map`, `blocked_cv_line_map`,
  `blocked_cv_count_map`, `barriers` and `refcnt_bars`.
* `Local` — the `__thread` variables that `getPutTurnStrategy` and `check_cv_wait_cnt` read.
* `relTimeToTurn` — how a relative time becomes a number of turns.
-/

import MinSmt.Scheduler.RRScheduler

namespace MinSmt

/-! ### pthread objects -/

/-- `EBUSY` of `errno.h`. -/
def ebusy : Nat := 16

/-- `EPERM` of `errno.h`. -/
def eperm : Nat := 1

/-- `EAGAIN` of `errno.h`. -/
def eagain : Nat := 11

/-- The types of a mutex. -/
inductive MutexKind
  | normal
  | recursive
  | errorcheck
  deriving DecidableEq, Repr

/-- `pthread_mutex_t`: the thread that holds it, and how often. -/
structure Mutex where
  kind : MutexKind := .normal
  owner : Option Tid := none
  count : Nat := 0
  deriving DecidableEq, Repr

namespace Mutex

/-- The mutex is held. -/
def held (m : Mutex) : Bool := m.owner.isSome

/-- `pthread_mutex_trylock`; `none` is `EBUSY`. -/
def trylock (m : Mutex) (tid : Tid) : Option Mutex :=
  match m.owner with
  | none => some { m with owner := some tid, count := 1 }
  | some owner =>
    if m.kind = .recursive ∧ owner = tid then some { m with count := m.count + 1 } else none

/-- `pthread_mutex_unlock`, with its result. A normal mutex does not look at its owner. -/
def unlock (m : Mutex) (tid : Tid) : Mutex × Nat :=
  if m.kind = .normal then ({ m with owner := none, count := 0 }, 0)
  else if m.owner = some tid then
    if m.count ≤ 1 then ({ m with owner := none, count := 0 }, 0)
    else ({ m with count := m.count - 1 }, 0)
  else (m, eperm)

/-- Whoever gets the mutex owns it. -/
theorem owner_of_trylock {m m' : Mutex} {tid : Tid} (got : m.trylock tid = some m') :
    m'.owner = some tid := by
  unfold trylock at got
  split at got
  · cases got
    rfl
  · rename_i owner isOwner
    split at got
    · rename_i again
      cases got
      exact isOwner.trans (congrArg some again.2)
    · cases got

/-- A mutex that cannot be had is held. -/
theorem held_of_trylock {m : Mutex} {tid : Tid} (busy : m.trylock tid = none) : m.held = true := by
  unfold trylock at busy
  unfold held
  split at busy
  · cases busy
  · rename_i owner isOwner
    rw [isOwner]
    rfl

end Mutex

/-- `pthread_rwlock_t`: the thread that holds it for writing, and those that hold it for reading, once
for each time. -/
structure RWLock where
  writer : Option Tid := none
  readers : List Tid := []
  deriving DecidableEq, Repr

namespace RWLock

/-- The lock is held, for reading or for writing. -/
def held (l : RWLock) : Bool := l.writer.isSome || !l.readers.isEmpty

/-- `pthread_rwlock_tryrdlock`; `none` is `EBUSY`. -/
def tryrdlock (l : RWLock) (tid : Tid) : Option RWLock :=
  if l.writer.isSome then none else some { l with readers := tid :: l.readers }

/-- `pthread_rwlock_trywrlock`; `none` is `EBUSY`. -/
def trywrlock (l : RWLock) (tid : Tid) : Option RWLock :=
  if l.held then none else some { l with writer := some tid }

/-- `pthread_rwlock_unlock`. The library only counts, so a thread that does not hold the lock gives
back what another one holds. -/
def unlock (l : RWLock) (tid : Tid) : RWLock :=
  if l.writer.isSome then { l with writer := none }
  else if tid ∈ l.readers then { l with readers := l.readers.erase tid }
  else { l with readers := l.readers.tail }

theorem held_of_tryrdlock {l : RWLock} {tid : Tid} (busy : l.tryrdlock tid = none) :
    l.held = true := by
  unfold tryrdlock at busy
  split at busy
  · rename_i written
    rw [held, written]
    rfl
  · cases busy

theorem held_of_trywrlock {l : RWLock} {tid : Tid} (busy : l.trywrlock tid = none) :
    l.held = true := by
  unfold trywrlock at busy
  split at busy
  · assumption
  · cases busy

theorem held_after_tryrdlock {l l' : RWLock} {tid : Tid} (got : l.tryrdlock tid = some l') :
    l'.held = true := by
  unfold tryrdlock at got
  split at got
  · cases got
  · cases got
    exact Bool.or_true _

theorem held_after_trywrlock {l l' : RWLock} {tid : Tid} (got : l.trywrlock tid = some l') :
    l'.held = true := by
  unfold trywrlock at got
  split at got
  · cases got
  · cases got
    rfl

end RWLock

/-! ### The runtime's own maps -/

/-- `Addr_n_role`: where a thread waits, and its role. -/
structure AddrNRole where
  addr : Nat := 0
  roleid : Nat := 0
  deriving DecidableEq, Repr

/-- An `Addr_n_role*`: which allocation, and what it holds. The fields of an allocation do not change
once it can be reached from a map. -/
structure RolePtr where
  allocation : Nat
  value : AddrNRole
  deriving DecidableEq, Repr

/-- `barrier_t`. -/
structure Barrier where
  count : Nat
  narrived : Nat := 0
  deriving DecidableEq, Repr

/-- `ref_cnt_barrier_t`; `arriving` is `phase == ARRIVING`. -/
structure Lineup where
  count : Nat
  nactive : Nat := 0
  timeout : Nat
  arriving : Bool := true
  deriving DecidableEq, Repr

/-- What all threads share, beside the scheduler. An entry that `operator[]` made is the same as a
missing one, but in `blocked_cv_count_map`, which is asked for its keys. `allocations` numbers the
objects that `new Addr_n_role` made. -/
structure Shared where
  mutex : Nat → Mutex := fun _ => {}
  rwlock : Nat → RWLock := fun _ => {}
  sem : Nat → Nat := fun _ => 0
  barriers : Nat → Option Barrier := fun _ => none
  refcntBars : Nat → Option Lineup := fun _ => none
  condMap : Nat → Int := fun _ => 0
  semMap : Nat → Int := fun _ => 0
  blockedCvLineMap : Option Nat → Option RolePtr := fun _ => none
  blockedCvCountMap : AddrNRole → Option Int := fun _ => none
  allocations : Nat := 0
  idleCreated : Bool := false

namespace Shared

variable (sh : Shared)

def setMutex (mu : Nat) (m : Mutex) : Shared := { sh with mutex := Function.update sh.mutex mu m }

def setRWLock (rw : Nat) (l : RWLock) : Shared :=
  { sh with rwlock := Function.update sh.rwlock rw l }

def setSem (sem value : Nat) : Shared := { sh with sem := Function.update sh.sem sem value }

/-- `cond_map[cv] += n`. -/
def addCond (cv : Nat) (n : Int) : Shared :=
  { sh with condMap := Function.update sh.condMap cv (sh.condMap cv + n) }

/-- `sem_map[sem] += n`. -/
def addSem (sem : Nat) (n : Int) : Shared :=
  { sh with semMap := Function.update sh.semMap sem (sh.semMap sem + n) }

/-- `sem_trywait`; `none` is `-1` with `EAGAIN`. -/
def semTrywait (sem : Nat) : Option Shared :=
  match sh.sem sem with
  | 0 => none
  | value + 1 => some (sh.setSem sem value)

/-- `blocked_cv_count_map[role]`, as a value. -/
def roleCount (role : AddrNRole) : Int := (sh.blockedCvCountMap role).getD 0

/-- `blocked_cv_count_map[role] = n`. -/
def setRoleCount (role : AddrNRole) (n : Option Int) : Shared :=
  { sh with blockedCvCountMap := Function.update sh.blockedCvCountMap role n }

/-- Write or erase `blocked_cv_line_map[cv]`. -/
def setLine (cv : Nat) (line : Option RolePtr) : Shared :=
  { sh with blockedCvLineMap := Function.update sh.blockedCvLineMap (some cv) line }

/-- `new Addr_n_role(..)`, entered for this condition variable, with one more thread in its count. -/
def noteBlocked (cv : Nat) (value : AddrNRole) : Shared :=
  let role : RolePtr := ⟨sh.allocations, value⟩
  let sh : Shared := { sh with allocations := sh.allocations + 1 }
  (sh.setLine cv (some role)).setRoleCount value (some (sh.roleCount value + 1))

/-- `--blocked_cv_count_map[role]`; at zero the role and the line of the condition variable are
erased. -/
def noteUnblocked (cv : Nat) (value : AddrNRole) : Shared :=
  let newval := sh.roleCount value - 1
  if newval ≤ 0 then (sh.setRoleCount value none).setLine cv none
  else sh.setRoleCount value (some newval)

end Shared

/-! ### Thread-local variables -/

/-- The `__thread` variables of the wrappers. `noCSWholeLocal` is written in non-det regions only. -/
structure Local where
  inCSLevel : Nat := 0
  slockNTurns : Int := 0
  satisfyingCV : Option Nat := none
  satisfyingSem : Option Nat := none
  satisfyingRole : Option RolePtr := none
  yieldThis : Bool := false
  noCSWholeLocal : Bool := false
  deriving DecidableEq, Repr

/-- `getPutTurnStrategy`; the flag says whether the operation is `pthread_create`. -/
def getPutTurnStrategy (o : Options) (l : Local) (isCreate : Bool) : Local × Strategy :=
  if l.yieldThis then
    ({ l with yieldThis := false }, if o.highPriorityYield then .yield else .default)
  else if 0 < l.slockNTurns ∧ isCreate = true then (l, .create)
  else if (0 < l.inCSLevel ∧ l.noCSWholeLocal = false) ∨ 0 < l.slockNTurns ∨
      (o.wakeamapPlus = false ∧ (l.satisfyingCV.isSome = true ∨ l.satisfyingSem.isSome = true)) then
    (l, .currentThread)
  else if o.wakeamapPlus = true ∧ (l.satisfyingRole.isSome = true ∨ l.satisfyingSem.isSome = true) then
    (l, .currentRole)
  else (l, .default)

/-- `check_cv_wait_cnt`. -/
def checkCvWaitCnt (o : Options) (sh : Shared) (l : Local) : Local :=
  let l : Local :=
    if o.wakeamapPlus then
      match l.satisfyingRole with
      | some role =>
        if sh.blockedCvCountMap role.value = none then { l with satisfyingRole := none } else l
      | none => l
    else
      match l.satisfyingCV with
      | some cv => if sh.condMap cv < 1 then { l with satisfyingCV := none } else l
      | none => l
  match l.satisfyingSem with
  | some sem => if sh.semMap sem < 1 then { l with satisfyingSem := none } else l
  | none => l

/-- What `SCHED_TIMER_END` does after `putTurn`. -/
def afterPutTurn (o : Options) (sh : Shared) (l : Local) : Local :=
  checkCvWaitCnt o sh
    (if 0 < l.slockNTurns then { l with slockNTurns := l.slockNTurns - 1 } else l)

/-- `set_slock_next_n`. -/
def setSlockNextN (o : Options) (l : Local) (nextNTurns : Int) : Local :=
  if o.enforceNextNAnnotations then { l with slockNTurns := nextNTurns - 1 } else l

/-! ### Time -/

/-- `struct timespec`. -/
structure Timespec where
  sec : Int
  nsec : Int
  deriving DecidableEq, Repr

/-- `time_diff`. -/
def timeDiff (start finish : Timespec) : Timespec :=
  if finish.nsec - start.nsec < 0 then
    ⟨finish.sec - start.sec - 1, 1000000000 - start.nsec + finish.nsec⟩
  else ⟨finish.sec - start.sec, finish.nsec - start.nsec⟩

/-- `time2turn`, of a `uint64_t`. Without an idle thread it ends the process, and so does a
`nanosec_per_turn` of zero. -/
def time2turn (o : Options) (nsec : Nat) : Option Nat :=
  if o.launchIdleThread = 0 ∨ o.nanosecPerTurn = 0 then none
  else if maxRel < nsec / o.nanosecPerTurn then some maxRel
  else some (nsec / o.nanosecPerTurn)

/-- `relTimeToTurn`; the nanoseconds are an `int64_t` that is passed as a `uint64_t`. Where the
intermediate values wrap around, the result modulo `2 ^ 64` is the same. -/
def relTimeToTurn (o : Options) (nthread : Nat) : Option Timespec → Option Nat
  | none => some 0
  | some reltime =>
    (time2turn o ((reltime.sec * 1000000000 + reltime.nsec) % 18446744073709551616).toNat).map
      fun ret => if ret < 5 * nthread + 1 then 5 * nthread + 1 else ret

end MinSmt
