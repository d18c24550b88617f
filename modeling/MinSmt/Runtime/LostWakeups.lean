/-
**No lost wake-up** for mutexes, reader-writer locks and semaphores.

A woken thread does not own what it waited for: it tries again, and it may be overtaken, fail and
wait again behind the others. What keeps waiters from being forgotten is a balance: as long as a
thread waits on a lock, there are at least as many threads that were signalled and have not tried
again as there are units of the lock to be had.

* `avail` — how many units of a lock can be had now: the value of a semaphore, and one or none for the
  other locks.
* `wokenOn` — the threads that a signal on the lock took out of the wait queue and that have not tried
  again.
* `Fair c sh aim slack` — the balance, inside a turn too: `slack` is a lock that may be out of balance
  by one, because the thread with the turn was one of the woken threads or has just released the lock.
* `turn_avail`, `turn_woke` — what a turn does to the units and to the waiters of a lock.
* **`no_lost_wakeup`** — the balance holds after every run.
-/

import Mathlib.Data.Finset.Card
import MinSmt.Runtime.Recorder

namespace MinSmt

open MinSmt.Library

/-! ### What can be had of a lock -/

/-- The locks and semaphores. -/
def Shared.locks (sh : Shared) : (Nat → Mutex) × (Nat → RWLock) × (Nat → Nat) :=
  (sh.mutex, sh.rwlock, sh.sem)

/-- **How many units of a lock can be had now.** -/
def avail (locks : (Nat → Mutex) × (Nat → RWLock) × (Nat → Nat)) : Chan → Nat
  | .mutex mu => if (locks.1 mu).held then 0 else 1
  | .rwlock rw => if (locks.2.1 rw).held then 0 else 1
  | .sem sem => locks.2.2 sem
  | _ => 0

/-- The channels of locks and semaphores. -/
def Chan.isLock : Chan → Bool
  | .mutex _ => true
  | .rwlock _ => true
  | .sem _ => true
  | _ => false

section Avail

variable {sh sh' : Shared} {chan : Chan}

theorem avail_of_not_lock (other : chan.isLock = false) : avail sh.locks chan = 0 := by
  cases chan <;> first | rfl | cases other

theorem avail_setMutex (mu : Nat) (m : Mutex) :
    avail (sh.setMutex mu m).locks chan =
      if chan = .mutex mu then (if m.held then 0 else 1) else avail sh.locks chan := by
  by_cases same : chan = .mutex mu
  · subst same
    rw [if_pos rfl]
    show (if (Function.update sh.mutex mu m mu).held then 0 else 1) = _
    rw [Function.update_self]
  · rw [if_neg same]
    cases chan with
    | mutex other =>
      have different : other ≠ mu := fun isMu => same (by rw [isMu])
      show (if (Function.update sh.mutex mu m other).held then 0 else 1) = _
      rw [Function.update_of_ne different]
      rfl
    | _ => rfl

theorem avail_setRWLock (rw : Nat) (l : RWLock) :
    avail (sh.setRWLock rw l).locks chan =
      if chan = .rwlock rw then (if l.held then 0 else 1) else avail sh.locks chan := by
  by_cases same : chan = .rwlock rw
  · subst same
    rw [if_pos rfl]
    show (if (Function.update sh.rwlock rw l rw).held then 0 else 1) = _
    rw [Function.update_self]
  · rw [if_neg same]
    cases chan with
    | rwlock other =>
      have different : other ≠ rw := fun isRw => same (by rw [isRw])
      show (if (Function.update sh.rwlock rw l other).held then 0 else 1) = _
      rw [Function.update_of_ne different]
      rfl
    | _ => rfl

theorem avail_setSem (sem value : Nat) :
    avail (sh.setSem sem value).locks chan =
      if chan = .sem sem then value else avail sh.locks chan := by
  by_cases same : chan = .sem sem
  · subst same
    rw [if_pos rfl]
    exact Function.update_self _ _ _
  · rw [if_neg same]
    cases chan with
    | sem other =>
      have different : other ≠ sem := fun isSem => same (by rw [isSem])
      exact Function.update_of_ne different _ _
    | _ => rfl

/-- A mutex that was taken is held. -/
theorem avail_trylock {mu : Nat} {tid : Tid} {m : Mutex}
    (got : (sh.mutex mu).trylock tid = some m) :
    avail (sh.setMutex mu m).locks chan =
      if chan = .mutex mu then 0 else avail sh.locks chan := by
  have held : m.held = true := by
    rw [Mutex.held, Mutex.owner_of_trylock got]
    rfl
  rw [avail_setMutex, held]
  rfl

end Avail

/-! ### The try-operations -/

section Attempt

variable {o : Options} {tid : Tid} {sh sh' : Shared} {chan : Chan} {loop : Loop}

theorem avail_pred_lock (held : Bool) : (if held then 0 else 1) - 1 = 0 := by
  cases held <;> rfl

theorem attempt_mutex {mu : Nat}
    (got : ((sh.mutex mu).trylock tid).map (sh.setMutex mu) = some sh') :
    avail sh'.locks chan =
      if chan = .mutex mu then avail sh.locks chan - 1 else avail sh.locks chan := by
  obtain ⟨m, taken, rfl⟩ := Option.map_eq_some_iff.mp got
  rw [avail_trylock taken]
  split
  · rename_i same
    rw [same]
    exact (avail_pred_lock _).symm
  · rfl

theorem attempt_rwlock {rw : Nat} {l : RWLock} (held : l.held = true)
    (taken : sh.setRWLock rw l = sh') :
    avail sh'.locks chan =
      if chan = .rwlock rw then avail sh.locks chan - 1 else avail sh.locks chan := by
  rw [← taken, avail_setRWLock, held]
  split
  · rename_i same
    rw [same]
    exact (avail_pred_lock _).symm
  · rfl

theorem attempt_sem {sem : Nat} (got : sh.semTrywait sem = some sh') :
    avail sh'.locks chan =
      if chan = .sem sem then avail sh.locks chan - 1 else avail sh.locks chan := by
  unfold Shared.semTrywait at got
  split at got
  · cases got
  · rename_i value isValue
    cases got
    rw [avail_setSem]
    split
    · rename_i same
      rw [same]
      show value = sh.sem sem - 1
      rw [isValue]
      rfl
    · rfl

/-- **A try-operation that succeeds takes a unit**, when there is one. -/
theorem attempt_some (got : loop.attempt tid sh = some sh') :
    avail sh'.locks chan =
      if chan = loop.chan then avail sh.locks chan - 1 else avail sh.locks chan := by
  cases loop with
  | mutexLock mu => exact attempt_mutex got
  | mutexTimedLock mu _ => exact attempt_mutex got
  | relock _ mu _ => exact attempt_mutex got
  | rdlock rw =>
    obtain ⟨l, taken, written⟩ := Option.map_eq_some_iff.mp got
    exact attempt_rwlock (RWLock.held_after_tryrdlock taken) written
  | wrlock rw =>
    obtain ⟨l, taken, written⟩ := Option.map_eq_some_iff.mp got
    exact attempt_rwlock (RWLock.held_after_trywrlock taken) written
  | semWait sem => exact attempt_sem got
  | semTimedWait sem _ => exact attempt_sem got

/-- **A try-operation that fails found none.** -/
theorem attempt_none (busy : loop.attempt tid sh = none) : avail sh.locks loop.chan = 0 := by
  have mutexes : ∀ mu, ((sh.mutex mu).trylock tid).map (sh.setMutex mu) = none →
      avail sh.locks (.mutex mu) = 0 := fun mu fails =>
    if_pos (Mutex.held_of_trylock (Option.map_eq_none_iff.mp fails))
  have sems : ∀ sem, sh.semTrywait sem = none → avail sh.locks (.sem sem) = 0 := by
    intro sem fails
    unfold Shared.semTrywait at fails
    split at fails
    · assumption
    · cases fails
  cases loop with
  | mutexLock mu => exact mutexes mu busy
  | mutexTimedLock mu _ => exact mutexes mu busy
  | relock _ mu _ => exact mutexes mu busy
  | rdlock rw => exact if_pos (RWLock.held_of_tryrdlock (Option.map_eq_none_iff.mp busy))
  | wrlock rw => exact if_pos (RWLock.held_of_trywrlock (Option.map_eq_none_iff.mp busy))
  | semWait sem => exact sems sem busy
  | semTimedWait sem _ => exact sems sem busy

/-! ### What a turn does to the units of a lock -/

/-- The lock that the call gives its first value. -/
def Call.initialises : Call → Option Chan
  | .mutexInit mu _ => some (.mutex mu)
  | .rwlockInit rw => some (.rwlock rw)
  | .semInit sem _ => some (.sem sem)
  | _ => none

/-- The units after a turn, and whether a thread may wait. -/
structure UnitsAfter (stage : Stage) (sh : Shared) (e : Env Core × Finish) : Prop where
  /-- At most one unit of what is signalled is added. -/
  most : ∀ chan, avail e.1.shared.locks chan ≤
    avail sh.locks chan + if stage.signals = some chan then 1 else 0
  /-- A thread that tries again takes a unit, when there is one. -/
  fewer : ∀ loop, stage = .retry loop →
    avail e.1.shared.locks loop.chan ≤ avail sh.locks loop.chan - 1
  /-- A thread waits only when there is none. -/
  waits : ∀ chan timeout next, e.2 = .wait (some chan) timeout next →
    avail e.1.shared.locks chan = 0

/-- Locks and semaphores are as before. -/
theorem UnitsAfter.of_same {stage : Stage} {e : Env Core × Finish}
    (same : e.1.shared.locks = sh.locks) (called : ∀ loop, stage ≠ .retry loop)
    (waits : ∀ chan timeout next, e.2 = .wait (some chan) timeout next → chan.isLock = false) :
    UnitsAfter stage sh e := by
  refine ⟨fun chan => ?_, fun loop isRetry => absurd isRetry (called loop),
    fun chan timeout next how => ?_⟩
  · rw [same]
    exact Nat.le_add_right _ _
  · rw [same]
    exact avail_of_not_lock (waits chan timeout next how)

theorem UnitsAfter.enter {stage : Stage} {e : Env Core} (same : e.shared.locks = sh.locks)
    (own : ∀ other, stage = .retry other → other = loop) :
    UnitsAfter stage sh (loop.enter o tid e) := by
  cases got : loop.attempt tid e.shared with
  | some shared =>
    rw [Loop.enter_of_some got]
    refine ⟨fun chan => ?_, fun other isRetry => ?_, fun chan timeout next how => ?_⟩
    · rw [Loop.leave_shared, attempt_some got, same]
      split <;> omega
    · rw [own other isRetry, Loop.leave_shared, attempt_some got, same, if_pos rfl]
    · rw [Loop.leave_finish] at how
      cases how
  | none =>
    have none := attempt_none got
    have locks : (loop.beforeWait e.shared).locks = e.shared.locks := by cases loop <;> rfl
    rw [same] at none
    rw [Loop.enter_of_none got]
    refine ⟨fun chan => ?_, fun other isRetry => ?_, fun chan timeout next how => ?_⟩
    · show avail (loop.beforeWait e.shared).locks chan ≤ _
      rw [locks, same]
      exact Nat.le_add_right _ _
    · show avail (loop.beforeWait e.shared).locks other.chan ≤ _
      rw [own other isRetry, locks, same, none]
    · cases how
      show avail (loop.beforeWait e.shared).locks loop.chan = 0
      rw [locks, same, none]

/-- A try-operation that a wrapper makes once. -/
theorem UnitsAfter.once {call : Call} {e : Env Core} {attempt : Option Shared} (loop : Loop)
    (tries : attempt = loop.attempt tid e.shared) :
    UnitsAfter (.called call) e.shared (tryOnce e attempt) := by
  cases got : loop.attempt tid e.shared with
  | some shared =>
    rw [tries, got]
    refine ⟨fun chan => ?_, fun loop isRetry => (nomatch isRetry),
      fun _ _ _ how => (nomatch how)⟩
    show avail shared.locks chan ≤ _
    rw [attempt_some got]
    split <;> omega
  | none =>
    rw [tries, got]
    exact .of_same rfl (fun _ => nofun) fun _ _ _ how => nomatch how

/-- A release adds at most one unit. -/
theorem UnitsAfter.release {stage : Stage} {on : Chan} {e : Env Core × Finish}
    (signals : stage.signals = some on) (called : ∀ loop, stage ≠ .retry loop)
    (units : ∀ chan, avail e.1.shared.locks chan ≤
      if chan = on then avail sh.locks chan + 1 else avail sh.locks chan)
    (waits : ∀ chan timeout next, e.2 = .wait (some chan) timeout next → chan.isLock = false) :
    UnitsAfter stage sh e := by
  refine ⟨fun chan => ?_, fun loop isRetry => absurd isRetry (called loop),
    fun chan timeout next how => avail_of_not_lock (waits chan timeout next how)⟩
  have few := units chan
  rw [signals]
  by_cases same : chan = on
  · rw [if_pos same] at few
    rw [if_pos (by rw [same])]
    exact few
  · rw [if_neg same] at few
    exact few.trans (Nat.le_add_right _ _)

theorem avail_unlock (mu : Nat) (m : Mutex) :
    avail (sh.setMutex mu m).locks chan ≤
      if chan = .mutex mu then avail sh.locks chan + 1 else avail sh.locks chan := by
  rw [avail_setMutex]
  split
  · split <;> omega
  · exact Nat.le_refl _

theorem noteWait_locks (sh : Shared) (cv : Nat) (role : AddrNRole) :
    (noteWait o sh cv role).locks = sh.locks := by
  unfold noteWait
  split <;> rfl

theorem noteUnblocked_locks (sh : Shared) (cv : Nat) (role : AddrNRole) :
    (sh.noteUnblocked cv role).locks = sh.locks := by
  unfold Shared.noteUnblocked
  dsimp only
  split <;> rfl

theorem condTimedOut_locks (e : Env Core) (cv : Nat) (role : AddrNRole) :
    (condTimedOut o e cv role).shared.locks = e.shared.locks := by
  unfold condTimedOut
  dsimp only
  split
  · exact noteUnblocked_locks _ cv role
  · rfl

theorem noteSignal_locks (sh : Shared) (cv : Nat) : (noteSignal o sh cv).1.locks = sh.locks := by
  have counted : (if 0 < sh.condMap cv then sh.addCond cv (-1) else sh).locks = sh.locks := by
    split <;> rfl
  unfold noteSignal
  dsimp only
  split
  · exact (noteUnblocked_locks _ cv _).trans counted
  · exact counted

theorem goOnFor_locks (sh : Shared) (self : Local) (cv : Nat) (role : Option RolePtr) :
    (goOnFor o sh self cv role).1.locks = sh.locks := by
  unfold goOnFor
  split
  · split
    · rfl
    · split
      · unfold chooseRole
        repeat' split
        all_goals rfl
      · rfl
  · rfl

theorem condWait_units {S : Serializer Core} {e : Env Core} {cv mu caller : Nat} {stage : Stage}
    (signals : stage.signals = some (.mutex mu)) (called : ∀ loop, stage ≠ .retry loop) :
    UnitsAfter stage e.shared (condWait S o tid e cv mu caller) := by
  refine .release signals called (fun chan => ?_) fun _ _ _ how => by cases how; rfl
  have same : (noteWait o (e.shared.addCond cv 1) cv (e.roleOf S tid caller)).locks =
      e.shared.locks := noteWait_locks _ cv _
  rw [← same]
  exact avail_unlock mu _

theorem condTimedWait_units {S : Serializer Core} {e : Env Core} {cv mu caller : Nat}
    {cur : Timespec} {abstime : Option Timespec} :
    UnitsAfter (.called (.condTimedWait cv mu caller cur abstime)) e.shared
      (condTimedWait S o tid e cv mu caller cur abstime) := by
  unfold condTimedWait
  split
  · exact condWait_units rfl fun _ => nofun
  · dsimp only
    have units : ∀ (sh : Shared) (chan : Chan), avail (noteWait o ((sh.setMutex mu
        ((sh.mutex mu).unlock tid).1).addCond cv 1) cv (e.roleOf S tid caller)).locks chan ≤
          if chan = .mutex mu then avail sh.locks chan + 1 else avail sh.locks chan := by
      intro sh chan
      rw [noteWait_locks]
      exact avail_unlock mu _
    split
    · exact .release rfl (fun _ => nofun) (units e.shared) fun _ _ _ how => by cases how; rfl
    · exact .release rfl (fun _ => nofun) (units e.shared) fun _ _ _ how => nomatch how

theorem rwlockUnlock_units (S : Serializer Core) (e : Env Core) (rw : Nat) :
    UnitsAfter (.called (.rwlockUnlock rw)) e.shared (rwlockUnlock S tid e rw) := by
  refine .release rfl (fun _ => nofun) (fun chan => ?_) fun _ _ _ how => nomatch how
  show avail (e.shared.setRWLock rw ((e.shared.rwlock rw).unlock tid)).locks chan ≤ _
  rw [avail_setRWLock]
  split
  · split <;> omega
  · exact Nat.le_refl _

theorem semPost_units (S : Serializer Core) (e : Env Core) (sem : Nat) :
    UnitsAfter (.called (.semPost sem)) e.shared (semPost S o e sem) := by
  refine .release rfl (fun _ => nofun) (fun chan => ?_) fun _ _ _ how => nomatch how
  have same : (semPost S o e sem).1.shared.locks =
      (e.shared.setSem sem (e.shared.sem sem + 1)).locks := by
    unfold semPost
    dsimp only
    split <;> rfl
  rw [same, avail_setSem]
  split
  · rename_i isSem
    rw [isSem]
    exact Nat.le_refl _
  · exact Nat.le_refl _

theorem barrierWait_units (S : Serializer Core) (e : Env Core) (barrier : Nat) :
    UnitsAfter (.called (.barrierWait barrier)) e.shared (barrierWait S e barrier) := by
  unfold barrierWait
  dsimp only
  split
  · exact .of_same rfl (fun _ => nofun) fun _ _ _ how => nomatch how
  · split
    · exact .of_same rfl (fun _ => nofun) fun _ _ _ how => nomatch how
    · exact .of_same rfl (fun _ => nofun) fun _ _ _ how => by cases how; rfl

theorem pthreadJoin_units {stage : Stage} (S : Serializer Core) (e : Env Core) (th : PthreadT)
    (called : ∀ loop, stage ≠ .retry loop) : UnitsAfter stage e.shared (pthreadJoin S e th) := by
  unfold pthreadJoin
  split
  · exact .of_same rfl called fun _ _ _ how => nomatch how
  · exact .of_same rfl called fun _ _ _ how => by cases how; rfl

theorem sleepFor_units {call : Call} (S : Serializer Core) (e : Env Core) (ts : Option Timespec) :
    UnitsAfter (.called call) e.shared (sleepFor S o e ts) := by
  unfold sleepFor
  split
  · split <;> exact .of_same rfl (fun _ => nofun) fun _ _ _ how => nomatch how
  · exact .of_same rfl (fun _ => nofun) fun _ _ _ how => nomatch how

theorem lineupStart_units (S : Serializer Core) (e : Env Core) (opaqueType : Nat) :
    UnitsAfter (.called (.lineupStart opaqueType)) e.shared (lineupStart S e opaqueType) := by
  unfold lineupStart
  dsimp only
  split
  · exact .of_same rfl (fun _ => nofun) fun _ _ _ how => nomatch how
  · split
    · split <;> exact .of_same rfl (fun _ => nofun) fun _ _ _ how => nomatch how
    · split
      · exact .of_same rfl (fun _ => nofun) fun _ _ _ how => by cases how; rfl
      · exact .of_same rfl (fun _ => nofun) fun _ _ _ how => nomatch how

/-- **What a call does to the units of a lock.** -/
theorem callTurn_units (S : Serializer Core) (e : Env Core) {call : Call}
    (plain : call.initialises = none) :
    UnitsAfter (.called call) e.shared (callTurn S o tid e call) := by
  cases call with
  | mutexInit mu kind => cases plain
  | rwlockInit rw => cases plain
  | semInit sem value => cases plain
  | join th => exact pthreadJoin_units S e th fun _ => nofun
  | mutexLock mu => exact .enter rfl fun _ isRetry => nomatch isRetry
  | mutexTryLock mu => exact .once (.mutexLock mu) rfl
  | mutexTimedLock mu cur abstime =>
    show UnitsAfter _ e.shared (mutexTimedLock S o tid e mu cur abstime)
    unfold mutexTimedLock
    split
    · exact .enter rfl fun _ isRetry => nomatch isRetry
    · split
      · exact .enter rfl fun _ isRetry => nomatch isRetry
      · exact .of_same rfl (fun _ => nofun) fun _ _ _ how => nomatch how
  | mutexUnlock mu =>
    exact .release rfl (fun _ => nofun) (fun _ => avail_unlock mu _) fun _ _ _ how => nomatch how
  | rdlock rw => exact .enter rfl fun _ isRetry => nomatch isRetry
  | wrlock rw => exact .enter rfl fun _ isRetry => nomatch isRetry
  | tryrdlock rw => exact @UnitsAfter.once tid _ e _ (.wrlock rw) rfl
  | trywrlock rw => exact @UnitsAfter.once tid _ e _ (.wrlock rw) rfl
  | rwlockUnlock rw => exact rwlockUnlock_units S e rw
  | barrierWait barrier => exact barrierWait_units S e barrier
  | condWait cv mu caller => exact condWait_units rfl fun _ => nofun
  | condTimedWait cv mu caller cur abstime => exact condTimedWait_units
  | condSignal cv =>
    exact .of_same ((goOnFor_locks _ _ cv _).trans (noteSignal_locks _ cv)) (fun _ => nofun)
      fun _ _ _ how => nomatch how
  | condBroadcast cv =>
    refine .of_same ?_ (fun _ => nofun) fun _ _ _ how => nomatch how
    show (condBroadcast S o e cv).1.shared.locks = _
    unfold condBroadcast
    dsimp only
    split <;> rfl
  | semWait sem => exact .enter rfl fun _ isRetry => nomatch isRetry
  | semTryWait sem =>
    show UnitsAfter _ e.shared (semTryWait e sem)
    unfold semTryWait
    split
    · rename_i shared got
      refine ⟨fun chan => ?_, fun _ isRetry => (nomatch isRetry), fun _ _ _ how => (nomatch how)⟩
      show avail shared.locks chan ≤ _
      rw [attempt_sem got]
      split <;> omega
    · exact .of_same rfl (fun _ => nofun) fun _ _ _ how => nomatch how
  | semTimedWait sem cur abstime =>
    show UnitsAfter _ e.shared (semTimedWait S o tid e sem cur abstime)
    unfold semTimedWait
    split
    · exact .enter rfl fun _ isRetry => nomatch isRetry
    · split
      · exact .enter rfl fun _ isRetry => nomatch isRetry
      · exact .of_same rfl (fun _ => nofun) fun _ _ _ how => nomatch how
  | semPost sem => exact semPost_units S e sem
  | lineupStart opaqueType => exact lineupStart_units S e opaqueType
  | lineupEnd opaqueType =>
    show UnitsAfter _ e.shared (lineupEnd e opaqueType)
    unfold lineupEnd
    split <;> exact .of_same rfl (fun _ => nofun) fun _ _ _ how => nomatch how
  | sleep seconds => exact sleepFor_units S e _
  | usleep usec => exact sleepFor_units S e _
  | nanosleep req => exact sleepFor_units S e _
  | _ => exact .of_same rfl (fun _ => nofun) fun _ _ _ how => nomatch how

/-- The lock that a turn gives its first value. -/
def Stage.initialises : Stage → Option Chan
  | .called call => call.initialises
  | _ => none

/-- A turn that initialises a lock does nothing else. -/
theorem turn_initialises (S : Serializer Core) (e : Env Core) {stage : Stage} {on : Chan}
    (initialises : stage.initialises = some on) :
    (∀ chan, chan ≠ on →
      avail (turn S o tid e stage).1.shared.locks chan = avail e.shared.locks chan) ∧
    (turn S o tid e stage).2 = .done false {} := by
  cases stage with
  | called call =>
    cases call with
    | mutexInit mu kind =>
      cases initialises
      exact ⟨fun chan other => (avail_setMutex mu _).trans (if_neg other), rfl⟩
    | rwlockInit rw =>
      cases initialises
      exact ⟨fun chan other => (avail_setRWLock rw _).trans (if_neg other), rfl⟩
    | semInit sem value =>
      cases initialises
      exact ⟨fun chan other => (avail_setSem sem _).trans (if_neg other), rfl⟩
    | _ => cases initialises
  | _ => cases initialises

/-- **What a turn does to the units of a lock.** -/
theorem turn_avail (S : Serializer Core) (e : Env Core) {stage : Stage}
    (plain : stage.initialises = none) : UnitsAfter stage e.shared (turn S o tid e stage) := by
  cases stage with
  | called call => exact callTurn_units S e plain
  | retry loop =>
    show UnitsAfter _ e.shared (loop.resume S o tid e)
    rw [Loop.resume_eq_enter]
    exact .enter rfl fun other isRetry => (Stage.retry.inj isRetry).symm
  | condWoken timed cv mu role =>
    show UnitsAfter _ e.shared (condWoken S o tid e timed cv mu role)
    unfold condWoken
    split
    · refine .enter ?_ fun _ isRetry => nomatch isRetry
      split
      · exact condTimedOut_locks e cv role
      · rfl
    · exact .enter rfl fun _ isRetry => nomatch isRetry
  | joining th => exact pthreadJoin_units S e th fun _ => nofun
  | lineupWoken opaqueType =>
    show UnitsAfter _ e.shared (lineupWoken S e opaqueType)
    unfold lineupWoken
    split
    · exact .of_same rfl (fun _ => nofun) fun _ _ _ how => nomatch how
    · split <;> exact .of_same rfl (fun _ => nofun) fun _ _ _ how => nomatch how
  | _ => exact .of_same rfl (fun _ => nofun) fun _ _ _ how => nomatch how

end Attempt

/-! ### What a release does to the waiters -/

/-- If someone still waits on the channel, someone else was signalled. -/
def Woke (on : Chan) (c c' : Core) : Prop :=
  ∀ t ∈ c'.waitq, (c'.waits t).chan = some on →
    ∃ u ∈ c.waitq, (c.waits u).chan = some on ∧ u ∉ c'.waitq ∧ (c'.waits u).wakeReason = .signal

namespace Woke

variable {on : Chan} {c c' c'' : Core} {chan : Option Chan}

theorem signal (nodup : c.waitq.Nodup) (on : Chan) : Woke on c (c.signal on false).1 := by
  intro t inside waits
  have kept := (scan_kept_iff nodup).mp inside
  have slot : (c.signal on false).1.waits t = c.waits t := scan_frame c.waitq kept.2
  rw [slot] at waits
  -- `t` waits on the channel, so the pass finds a first thread that does
  have found : (c.waitq.find? fun u => (c.waits u).chan == some on).isSome = true := by
    rw [List.find?_isSome]
    exact ⟨t, kept.1, beq_iff_eq.mpr waits⟩
  obtain ⟨u, isFirst⟩ := Option.isSome_iff_exists.mp found
  have woken : u ∈ (scan (fun w _ => w.chan == some on)
      (fun w => { w.reset with wakeReason := .signal }) false c.waits c.waitq).woken := by
    rw [scan_woken_one]
    exact Option.mem_toList.mpr isFirst
  refine ⟨u, scan_woken_subset _ _ woken, eq_of_beq (scan_woken_hit nodup woken), ?_, ?_⟩
  · exact fun stays => ((scan_kept_iff nodup).mp stays).2 woken
  · have slot : (c.signal on false).1.waits u = { (c.waits u).reset with wakeReason := .signal } :=
      scan_wake nodup woken
    rw [slot]

theorem after (woke : Woke on c c') (ops : Core.Turned chan c' c'') : Woke on c c'' := by
  intro t inside waits
  rw [ops.same t (Or.inl inside)] at waits
  obtain ⟨u, before, waited, gone, reason⟩ := woke t (ops.kept.subset inside) waits
  refine ⟨u, before, waited, fun stays => gone (ops.kept.subset stays), ?_⟩
  rw [ops.same u (Or.inr gone)]
  exact reason

theorem before (ops : Core.Turned chan c c') (woke : Woke on c' c'') : Woke on c c'' := by
  intro t inside waits
  obtain ⟨u, before, waited, gone, reason⟩ := woke t inside waits
  refine ⟨u, ops.kept.subset before, ?_, gone, reason⟩
  rw [← ops.same u (Or.inl before)]
  exact waited

end Woke

/-- **Every release signals a waiter.** -/
theorem turn_woke {o : Options} {tid : Tid} {e : Env Core} {stage : Stage} {on : Chan}
    (nodup : e.sched.waitq.Nodup) (signals : stage.signals = some on) (lock : on.isLock = true) :
    Woke on e.sched (turn (Core.serializer o.wakeamapPlus) o tid e stage).1.sched := by
  have conds : ∀ mu, Woke (.mutex mu) e.sched (e.sched.signal (.mutex mu) false).1.incTurnCount :=
    fun mu => (Woke.signal nodup _).after
      (Core.Turned.refl none ((Core.Turned.refl _ nodup).signal rfl false).nodup).incTurnCount
  unfold Stage.signals at signals
  split at signals
  · cases signals
    exact Woke.signal nodup _
  · cases signals
    exact Woke.signal nodup _
  · cases signals
    cases lock
  · cases signals
    exact conds _
  · rename_i cv mu caller cur abstime
    cases signals
    show Woke _ e.sched (condTimedWait _ o tid e cv mu caller cur abstime).1.sched
    unfold condTimedWait
    split
    · exact conds _
    · have ops := (Core.Turned.refl none nodup).incTurnCount
      dsimp only
      split <;> exact (Woke.signal ops.nodup _).before ops
  · cases signals
    cases lock
  · cases signals
    cases lock
  · cases signals
    exact Woke.signal nodup _
  · cases signals
    cases lock
  · cases signals
    cases lock
  · cases signals

/-! ### The balance -/

/-- The threads that a signal on the channel took out of the wait queue and that have not tried again;
`aim t` is what the thread `t` will try for. -/
def wokenOn (c : Core) (aim : Tid → Option Chan) (chan : Chan) : Finset Tid :=
  (Finset.range c.tm.nthread).filter fun t =>
    t ∉ c.waitq ∧ aim t = some chan ∧ (c.waits t).wakeReason = .signal

/-- **The balance of a lock's units and the threads woken for them**, as long as someone waits. -/
def Fair (c : Core) (sh : Shared) (aim : Tid → Option Chan) (slack : Option Chan) : Prop :=
  ∀ chan, (∃ t ∈ c.waitq, (c.waits t).chan = some chan) →
    avail sh.locks chan ≤ (wokenOn c aim chan).card + if slack = some chan then 1 else 0

namespace Fair

variable {c c' : Core} {sh sh' : Shared} {aim : Tid → Option Chan} {slack chan : Option Chan}
  {tid : Tid} {on : Chan}

theorem wokenOn_mono (kept : ∀ t ∈ c'.waitq, t ∈ c.waitq)
    (same : ∀ t, t ∈ c'.waitq ∨ t ∉ c.waitq → c'.waits t = c.waits t)
    (grown : c.tm.nthread ≤ c'.tm.nthread) (on : Chan) : wokenOn c aim on ⊆ wokenOn c' aim on := by
  intro t member
  obtain ⟨known, free, aims, reason⟩ := Finset.mem_filter.mp member
  refine Finset.mem_filter.mpr ⟨?_, fun inside => free (kept t inside), aims, ?_⟩
  · exact Finset.mem_range.mpr ((Finset.mem_range.mp known).trans_le grown)
  · rw [same t (Or.inr free)]
    exact reason

/-- Threads that leave the wait queue do not disturb the balance. -/
theorem mono (fair : Fair c sh aim slack) (kept : ∀ t ∈ c'.waitq, t ∈ c.waitq)
    (same : ∀ t, t ∈ c'.waitq ∨ t ∉ c.waitq → c'.waits t = c.waits t)
    (grown : c.tm.nthread ≤ c'.tm.nthread) : Fair c' sh aim slack := by
  rintro on ⟨t, inside, waits⟩
  rw [same t (Or.inl inside)] at waits
  have balance := fair on ⟨t, kept t inside, waits⟩
  have more : (wokenOn c aim on).card ≤ (wokenOn c' aim on).card :=
    Finset.card_le_card (wokenOn_mono kept same grown on)
  omega

theorem turned (fair : Fair c sh aim slack) (ops : Core.Turned chan c c') :
    Fair c' sh aim slack :=
  fair.mono (fun _ inside => ops.kept.subset inside) ops.same ops.grown

/-- A signal restores the balance. -/
theorem woke (fair : Fair c sh aim (some on)) (ops : Core.Turned chan c c') (woke : Woke on c c')
    (aims : ∀ u ∈ c.waitq, (c.waits u).chan = some on → aim u = some on ∧ u < c.tm.nthread) :
    Fair c' sh aim none := by
  rintro other ⟨t, inside, waits⟩
  by_cases same : other = on
  · subst same
    obtain ⟨u, before, waited, gone, reason⟩ := woke t inside waits
    obtain ⟨aimed, known⟩ := aims u before waited
    have balance := fair other ⟨u, before, waited⟩
    have fresh : u ∉ wokenOn c aim other := fun member =>
      (Finset.mem_filter.mp member).2.1 before
    have more : insert u (wokenOn c aim other) ⊆ wokenOn c' aim other := by
      refine Finset.insert_subset (Finset.mem_filter.mpr ⟨?_, gone, aimed, reason⟩)
        (wokenOn_mono (fun _ stays => ops.kept.subset stays) ops.same ops.grown other)
      exact Finset.mem_range.mpr (known.trans_le ops.grown)
    have count := Finset.card_le_card more
    rw [Finset.card_insert_of_notMem fresh] at count
    rw [if_pos rfl] at balance
    simp only [reduceCtorEq, if_false]
    omega
  · have balance := fair.turned ops other ⟨t, inside, waits⟩
    rw [if_neg fun eq => same (Option.some.inj eq).symm] at balance
    exact balance.trans (Nat.add_le_add_left (Nat.zero_le _) _)

/-- A turn that is not a retry adds at most one unit, of what it signals. -/
theorem units (fair : Fair c sh aim none) (most : ∀ chan, avail sh'.locks chan ≤
    avail sh.locks chan + if slack = some chan then 1 else 0) : Fair c sh' aim slack := by
  intro on waited
  have balance := fair on waited
  have few := most on
  simp only [reduceCtorEq, if_false] at balance
  omega

/-- A retry takes the unit that the thread was woken for. -/
theorem retry (fair : Fair c sh aim (some on))
    (most : ∀ chan, avail sh'.locks chan ≤ avail sh.locks chan)
    (fewer : avail sh'.locks on ≤ avail sh.locks on - 1) : Fair c sh' aim none := by
  intro other waited
  have balance := fair other waited
  simp only [reduceCtorEq, if_false]
  by_cases same : other = on
  · subst same
    rw [if_pos rfl] at balance
    omega
  · rw [if_neg fun eq => same (Option.some.inj eq).symm] at balance
    exact (most other).trans balance

/-- The thread with the turn is not counted any more. -/
theorem forget (fair : Fair c sh aim none) (tid : Tid) :
    Fair c sh (Function.update aim tid none) (aim tid) := by
  intro on waited
  have balance := fair on waited
  simp only [reduceCtorEq, if_false] at balance
  have others : ∀ t ∈ wokenOn c aim on, t ≠ tid →
      t ∈ wokenOn c (Function.update aim tid none) on := by
    intro t member other
    obtain ⟨known, free, aims, reason⟩ := Finset.mem_filter.mp member
    refine Finset.mem_filter.mpr ⟨known, free, ?_, reason⟩
    rw [Function.update_of_ne other]
    exact aims
  by_cases aimed : aim tid = some on
  · rw [if_pos aimed]
    have fewer : wokenOn c aim on ⊆ insert tid (wokenOn c (Function.update aim tid none) on) := by
      intro t member
      by_cases other : t = tid
      · exact other ▸ Finset.mem_insert_self _ _
      · exact Finset.mem_insert_of_mem (others t member other)
    have count := (Finset.card_le_card fewer).trans (Finset.card_insert_le _ _)
    omega
  · rw [if_neg aimed]
    have same : wokenOn c aim on ⊆ wokenOn c (Function.update aim tid none) on := by
      intro t member
      refine others t member fun isTid => aimed ?_
      exact isTid ▸ (Finset.mem_filter.mp member).2.2.1
    have count := Finset.card_le_card same
    omega

/-- The units of a lock that no one waits on do not matter. -/
theorem initialise (fair : Fair c sh aim none)
    (same : ∀ chan, chan ≠ on → avail sh'.locks chan = avail sh.locks chan)
    (unused : ∀ t ∈ c.waitq, (c.waits t).chan ≠ some on) : Fair c sh' aim none := by
  rintro chan ⟨t, inside, waits⟩
  have other : chan ≠ on := fun isOn => unused t inside (isOn ▸ waits)
  rw [same chan other]
  exact fair chan ⟨t, inside, waits⟩

/-- What is not a lock has no units. -/
theorem drop (fair : Fair c sh aim (some on)) (other : on.isLock = false) : Fair c sh aim none := by
  intro chan waited
  by_cases same : chan = on
  · rw [same, avail_of_not_lock other]
    exact Nat.zero_le _
  · have balance := fair chan waited
    rw [if_neg fun eq => same (Option.some.inj eq).symm] at balance
    exact balance.trans (Nat.add_le_add_left (Nat.zero_le _) _)

/-- A thread enters the wait queue where there is nothing to be had. -/
theorem enqueue (fair : Fair c sh aim none) (own : aim tid = none) (timeout : Nat)
    {aim' : Tid → Option Chan} (aims : ∀ t, t ≠ tid → aim' t = aim t)
    (nothing : ∀ on, chan = some on → avail sh.locks on = 0) :
    Fair (c.enqueue tid chan timeout) sh aim' none := by
  rintro on ⟨t, inside, waits⟩
  by_cases same : t = tid
  · subst same
    rw [Recorder.enqueue_waits_self] at waits
    rw [nothing on waits]
    exact Nat.zero_le _
  · rw [Recorder.enqueue_waits_of_ne same] at waits
    have before : t ∈ c.waitq := (Recorder.mem_enqueue.mp inside).resolve_right same
    have balance := fair on ⟨t, before, waits⟩
    have more : wokenOn c aim on ⊆ wokenOn (c.enqueue tid chan timeout) aim' on := by
      intro u member
      obtain ⟨known, free, aimed, reason⟩ := Finset.mem_filter.mp member
      have other : u ≠ tid := by
        rintro rfl
        rw [own] at aimed
        cases aimed
      refine Finset.mem_filter.mpr ⟨known, fun stays => ?_, (aims u other).trans aimed, ?_⟩
      · exact free ((Recorder.mem_enqueue.mp stays).resolve_right other)
      · rw [Recorder.enqueue_waits_of_ne other]
        exact reason
    have count := Finset.card_le_card more
    omega

end Fair

/-! ### Runs -/

/-- What a thread at the stage will try for. -/
def Stage.aim : Stage → Option Chan
  | .retry loop => some loop.chan
  | _ => none

/-- What a thread there will try for. -/
def Spot.aim : Spot → Option Chan
  | .inside stage => stage.aim
  | _ => none

namespace Recorder

variable {o : Options} {r r' : Recorder} {tid : Tid} {stage : Stage}

/-- **The balance of all locks.** -/
def Balanced (r : Recorder) : Prop := Fair r.core r.shared (fun t => (r.spot t).aim) none

theorem aim_of_stageOf {move : Move} (isStage : r.stageOf tid move = some stage) :
    (r.spot tid).aim = stage.aim := by
  cases move with
  | call call =>
    simp only [stageOf] at isStage
    split at isStage
    · rename_i outside
      cases isStage
      rw [outside]
      rfl
    · cases isStage
  | resume =>
    simp only [stageOf] at isStage
    split at isStage
    · rename_i inside here
      cases isStage
      rw [here]
      rfl
    · cases isStage
  | _ => cases isStage

/-- A thread in the wait queue of a lock will try for it. -/
theorem aim_of_parked {spot : Spot} {w : WaitT} {on : Chan} (parked : Parked spot w)
    (waits : w.chan = some on) (lock : on.isLock = true) : spot.aim = some on := by
  cases spot with
  | outside =>
    rw [parked.1] at waits
    cases waits
    cases lock
  | returning => exact parked.elim
  | inside stage =>
    have same : stage.chan = some on := parked.2.1.symm.trans waits
    cases stage with
    | retry loop => exact same
    | called call => cases same
    | barrierLast barrier => cases same
    | slept => cases same
    | _ =>
      cases same
      cases lock

/-- Inside the turn, before it is given up. -/
theorem balanced_turn (sound : Sound r.core r.spot) (fair : Balanced r) {c : Core}
    {chan : Option Chan} (ops : Core.Turned chan r.core c)
    (later : ∃ chan, Core.Turned chan (r.turnOf o tid stage).1.sched c)
    (aimed : (r.spot tid).aim = stage.aim) (plain : stage.initialises = none) (free : tid ∉ r.core.waitq) :
    Fair c (r.turnOf o tid stage).1.shared
      (Function.update (fun t => (r.spot t).aim) tid none) none := by
  have units : UnitsAfter stage r.shared (r.turnOf o tid stage) := turn_avail _ (r.env tid) plain
  have forgot := fair.forget tid
  rw [aimed] at forgot
  cases isAim : stage.aim with
  | some on =>
    cases stage with
    | retry loop =>
      have isLoop : loop.chan = on := Option.some.inj isAim
      rw [isAim] at forgot
      refine (forgot.retry (fun chan => ?_) ?_).turned ops
      · exact (units.most chan).trans (by simp [Stage.signals])
      · exact isLoop ▸ units.fewer loop rfl
    | _ => cases isAim
  | none =>
    rw [isAim] at forgot
    have counted := forgot.units units.most
    cases isSignal : stage.signals with
    | none =>
      rw [isSignal] at counted
      exact counted.turned ops
    | some on =>
      rw [isSignal] at counted
      cases lock : on.isLock with
      | false => exact (counted.drop lock).turned ops
      | true =>
        obtain ⟨_, rest⟩ := later
        have woke : Woke on r.core c :=
          (turn_woke (e := r.env tid) sound.nodup isSignal lock).after rest
        refine counted.woke ops woke fun u inside waits => ⟨?_, sound.known u (sound.live u inside)⟩
        have other : u ≠ tid := fun same => free (same ▸ inside)
        rw [Function.update_of_ne other]
        exact aim_of_parked (sound.parked u inside) waits lock

/-- Inside the turn that initialises a lock. -/
theorem balanced_initialises (fair : Balanced r) {c : Core} {chan : Option Chan} {on : Chan}
    (ops : Core.Turned chan r.core c) (initialises : stage.initialises = some on)
    (unused : ∀ t ∈ r.core.waitq, (r.core.waits t).chan ≠ some on)
    (aimed : (r.spot tid).aim = stage.aim) :
    Fair c (r.turnOf o tid stage).1.shared
      (Function.update (fun t => (r.spot t).aim) tid none) none := by
  have first := @turn_initialises o tid (Core.serializer o.wakeamapPlus) (r.env tid)
    stage on initialises
  have own : stage.aim = none := by
    cases stage with
    | called call => rfl
    | _ => cases initialises
  have forgot := fair.forget tid
  rw [aimed, own] at forgot
  exact (forgot.initialise first.1 unused).turned ops

/-- The turn initialises a lock only while no thread waits on it. -/
def InitialisesUnused (r : Recorder) (label : Tid × Move) : Prop :=
  ∀ on ∈ (r.stageOf label.1 label.2).bind Stage.initialises,
    ∀ t ∈ r.core.waitq, (r.core.waits t).chan ≠ some on

instance (r : Recorder) (label : Tid × Move) : Decidable (r.InitialisesUnused label) :=
  inferInstanceAs (Decidable (∀ _ ∈ _, _))

/-- A thread waits only for what is not to be had. -/
theorem nothing_of_wait {chan : Chan} {timeout : Nat} {next : Stage}
    (how : (r.turnOf o tid stage).2 = .wait (some chan) timeout next) :
    avail (r.turnOf o tid stage).1.shared.locks chan = 0 := by
  cases initialises : stage.initialises with
  | none => exact (turn_avail _ (r.env tid) initialises).waits chan timeout next how
  | some on =>
    have done : (r.turnOf o tid stage).2 = .done false {} := (turn_initialises _ _ initialises).2
    rw [done] at how
    cases how

/-- **A turn keeps the balance.** -/
theorem balanced_took {move : Move} (sound : Sound r.core r.spot) (fair : Balanced r)
    (unused : InitialisesUnused r (tid, move)) (isStage : r.stageOf tid move = some stage)
    (took : Took o r tid stage r') : Balanced r' := by
  obtain ⟨c, ops, later, givenUp⟩ := took.turned
  have aimed := aim_of_stageOf isStage
  have inTurn : Fair c (r.turnOf o tid stage).1.shared
      (Function.update (fun t => (r.spot t).aim) tid none) none := by
    cases initialises : stage.initialises with
    | none => exact balanced_turn sound fair ops later aimed initialises took.ready.1
    | some on =>
      have here : on ∈ (r.stageOf tid move).bind Stage.initialises := by
        rw [isStage]
        exact initialises
      exact balanced_initialises fair ops initialises (unused on here) aimed
  have fits : (r.turnOf o tid stage).2.Fits stage :=
    @turn_fits _ (Core.serializer o.wakeamapPlus) o tid (r.env tid) stage
  have others : ∀ t, t ≠ tid → (r'.spot t).aim =
      Function.update (fun t => (r.spot t).aim) tid none t := by
    intro t other
    rw [Function.update_of_ne other, took.spots t other]
  have aims : (r'.spot tid).aim = none → (fun t => (r'.spot t).aim) =
      Function.update (fun t => (r.spot t).aim) tid none := by
    intro own
    funext t
    by_cases same : t = tid
    · rw [same, own, Function.update_self]
    · exact others t same
  unfold Balanced
  rw [took.shared]
  generalize r'.core = core at givenUp ⊢
  generalize left : r'.spot tid = spot at givenUp
  generalize how : (r.turnOf o tid stage).2 = finish at givenUp fits
  cases givenUp with
  | wait chan timeout next =>
    exact inTurn.enqueue (Function.update_self _ _ _) timeout others
      fun on isOn => nothing_of_wait (isOn ▸ how)
  | bounce next =>
    obtain ⟨barrier, -, rfl⟩ := fits
    exact (aims (by rw [left]; rfl)).symm ▸ inTurn
  | ended =>
    rw [aims (by rw [left]; rfl)]
    exact inTurn.mono (fun _ => id) (fun _ _ => rfl) (TidMap.zombify_nthread c.tm tid).ge
  | _ => exact (aims (by rw [left]; rfl)).symm ▸ inTurn

/-- **Every step keeps the balance.** -/
theorem balanced_step {label : Tid × Move} (sound : Sound r.core r.spot) (fair : Balanced r)
    (unused : InitialisesUnused r label) (stepped : r.step o label = some r') : Balanced r' := by
  obtain ⟨tid, move⟩ := label
  rcases step_cases sound.nodup stepped with ⟨stage, isStage, took⟩ | ⟨_, returning, rfl⟩ |
    ⟨_, ready, outside, rfl⟩ | ⟨_, _, rfl⟩
  · exact balanced_took sound fair unused isStage took
  · have aims : (fun t => (Function.update r.spot tid .outside t).aim) =
        fun t => (r.spot t).aim := by
      funext t
      by_cases same : t = tid
      · rw [same, Function.update_self, returning]
        rfl
      · rw [Function.update_of_ne same]
    show Fair r.core r.shared (fun t => (Function.update r.spot tid .outside t).aim) none
    rw [aims]
    exact fair
  · have counted := fair.turned (Core.Turned.refl none sound.nodup).incTurnCount
    refine counted.enqueue ?_ forever (fun _ _ => rfl) fun on isIdle => ?_
    · show (r.spot tid).aim = none
      rw [outside]
      rfl
    · cases isIdle
      rfl
  · refine fair.mono (fun t => scan_kept_subset _ _) (fun t place => ?_) (Nat.le_refl _)
    refine scan_frame _ fun woken => ?_
    rcases place with stays | never
    · exact ((scan_kept_iff sound.nodup).mp stays).2 woken
    · exact never (scan_woken_subset _ _ woken)

/-- **So does every run.** -/
theorem balanced_run {mainTh : PthreadT} {shared : Shared} {labels : List (Tid × Move)}
    (unused : Along (step o) InitialisesUnused (init o mainTh shared) labels)
    (ran : exec (step o) (init o mainTh shared) labels = some r) : Balanced r := by
  have sound : Sound (init o mainTh shared).core (init o mainTh shared).spot :=
    sound_run (exec_nil _)
  refine (exec_invariant (fun r => Sound r.core r.spot ∧ Balanced r) ?_ ⟨sound, ?_⟩ unused ran).2
  · intro s label next inv fine stepped
    exact ⟨sound_step inv.1 stepped, balanced_step inv.1 inv.2 fine stepped⟩
  · rintro on ⟨t, inside, -⟩
    cases inside

/-- The threads that a signal on the channel took out of the wait queue and that have not tried
again. -/
def woken (r : Recorder) (chan : Chan) : Finset Tid :=
  wokenOn r.core (fun t => (r.spot t).aim) chan

/-- **No lost wake-up.** In any order of turns, between turns: who waits on a mutex or on a
reader-writer lock waits for a lock that is held, or a thread that was signalled on it has not tried
again; and as long as a thread waits on a semaphore, its value is at most the number of the threads that
were signalled on it and have not tried again. -/
theorem no_lost_wakeup (o : Options) (mainTh : PthreadT) (shared : Shared)
    (labels : List (Tid × Move)) (r : Recorder)
    (unused : Along (step o) InitialisesUnused (init o mainTh shared) labels)
    (ran : exec (step o) (init o mainTh shared) labels = some r) (t : Tid)
    (inside : t ∈ r.core.waitq) :
    (∀ mu, (r.core.waits t).chan = some (.mutex mu) →
      (r.shared.mutex mu).held = true ∨ (r.woken (.mutex mu)).Nonempty) ∧
    (∀ rw, (r.core.waits t).chan = some (.rwlock rw) →
      (r.shared.rwlock rw).held = true ∨ (r.woken (.rwlock rw)).Nonempty) ∧
    (∀ sem, (r.core.waits t).chan = some (.sem sem) →
      r.shared.sem sem ≤ (r.woken (.sem sem)).card) := by
  have fair := balanced_run unused ran
  have lock : ∀ (held : Bool) (chan : Chan),
      (if held then 0 else 1) ≤ (wokenOn r.core (fun t => (r.spot t).aim) chan).card →
        held = true ∨ (r.woken chan).Nonempty := by
    intro held chan balance
    cases held with
    | true => exact Or.inl rfl
    | false => exact Or.inr (Finset.card_pos.mp balance)
  refine ⟨fun mu waits => ?_, fun rw waits => ?_, fun sem waits => ?_⟩
  · exact lock _ _ (fair _ ⟨t, inside, waits⟩)
  · exact lock _ _ (fair _ ⟨t, inside, waits⟩)
  · exact fair _ ⟨t, inside, waits⟩

/-- The main thread takes the mutex `7`; threads `2` and `3` wait for it and thread `4` waits on the
semaphore `6`. The main thread gives the mutex back, and takes it again before thread `2` can. -/
def overtaken : List (Tid × Move) :=
  (quick 0 (.createIdle 101) ++ quick 0 (.create 102 3 0) ++ quick 0 (.create 103 3 0) ++
    quick 0 (.create 104 3 0) ++ quick 0 (.mutexLock 7)) ++
  [(2, .call (.mutexLock 7)), (3, .call (.mutexLock 7)), (4, .call (.semWait 6))] ++
  (quick 0 (.mutexUnlock 7) ++ quick 0 (.mutexLock 7))

/-- The two threads that wait are not forgotten: thread `2` was signalled and has not tried again. -/
theorem no_lost_wakeup_overtaken :
    ∃ r, exec (step {}) (init {} 100 {}) overtaken = some r ∧
      r.core.waitq = [3, 4] ∧ r.woken (.mutex 7) = {2} ∧
      ((r.shared.mutex 7).held = true ∨ (r.woken (.mutex 7)).Nonempty) ∧
      r.shared.sem 6 ≤ (r.woken (.sem 6)).card := by
  have found : (exec (step {}) (init {} 100 {}) overtaken).any
      (fun r => decide (r.core.waitq = [3, 4] ∧ r.woken (.mutex 7) = {2} ∧
        (r.core.waits 3).chan = some (.mutex 7) ∧ (r.core.waits 4).chan = some (.sem 6))) = true := by
    decide +kernel
  obtain ⟨r, ran, here⟩ := exec_of_any found
  obtain ⟨queue, signalled, first, second⟩ := of_decide_eq_true here
  have unused : Along (step {}) InitialisesUnused (init {} 100 {}) overtaken := by decide +kernel
  have fair := fun t => no_lost_wakeup {} 100 {} overtaken r unused ran t
  exact ⟨r, ran, queue, signalled, (fair 3 (by rw [queue]; decide)).1 7 first,
    (fair 4 (by rw [queue]; decide)).2.2 6 second⟩

end Recorder

end MinSmt
