/-
**What a turn leaves alone.**

A wrapper works on one object: the mutex, reader-writer lock, semaphore, barrier or soft barrier it is
called with, and a wait on a condition variable works on its mutex. Every other object is after the
turn what it was before it.

* `Shared.object` — the object behind a channel.
* `Stage.object` — the object that a turn works on.
* **`turn_frame`** — a turn leaves the others alone.
* `Stage.notes`, **`turn_books`** — which turns write the runtime's own maps, and that the others do not.
* `Stage.marks`, **`turn_self`** — which turns write the thread's own variables, and that the others do not.
* `Stage.awaits`, `turn_waitsOn` — what a thread waits on when its turn ends in a wait.
-/

import MinSmt.Runtime.Calls

namespace MinSmt

/-- What is behind a channel. -/
inductive Object
  | mutex (m : Mutex)
  | rwlock (l : RWLock)
  | sem (value : Nat)
  | barrier (b : Option Barrier)
  | lineup (b : Option Lineup)
  | nothing

/-- The object behind a channel. -/
def Shared.object (sh : Shared) : Chan → Object
  | .mutex mu => .mutex (sh.mutex mu)
  | .rwlock rw => .rwlock (sh.rwlock rw)
  | .sem sem => .sem (sh.sem sem)
  | .barrier barrier => .barrier (sh.barriers barrier)
  | .lineup opaqueType => .lineup (sh.refcntBars opaqueType)
  | _ => .nothing

/-- The object that a wrapper works on. -/
def Call.object : Call → Option Chan
  | .mutexInit mu _ => some (.mutex mu)
  | .mutexLock mu => some (.mutex mu)
  | .mutexTryLock mu => some (.mutex mu)
  | .mutexTimedLock mu _ _ => some (.mutex mu)
  | .mutexUnlock mu => some (.mutex mu)
  | .rwlockInit rw => some (.rwlock rw)
  | .rdlock rw => some (.rwlock rw)
  | .wrlock rw => some (.rwlock rw)
  | .tryrdlock rw => some (.rwlock rw)
  | .trywrlock rw => some (.rwlock rw)
  | .rwlockUnlock rw => some (.rwlock rw)
  | .barrierInit barrier _ => some (.barrier barrier)
  | .barrierWait barrier => some (.barrier barrier)
  | .barrierDestroy barrier => some (.barrier barrier)
  | .condWait _ mu _ => some (.mutex mu)
  | .condTimedWait _ mu _ _ _ => some (.mutex mu)
  | .semInit sem _ => some (.sem sem)
  | .semWait sem => some (.sem sem)
  | .semTryWait sem => some (.sem sem)
  | .semTimedWait sem _ _ => some (.sem sem)
  | .semPost sem => some (.sem sem)
  | .lineupInit opaqueType _ _ => some (.lineup opaqueType)
  | .lineupDestroy opaqueType => some (.lineup opaqueType)
  | .lineupStart opaqueType => some (.lineup opaqueType)
  | .lineupEnd opaqueType => some (.lineup opaqueType)
  | _ => none

/-- The object that a turn works on. -/
def Stage.object : Stage → Option Chan
  | .called call => call.object
  | .retry loop => some loop.chan
  | .condWoken _ _ mu _ => some (.mutex mu)
  | .lineupWoken opaqueType => some (.lineup opaqueType)
  | _ => none

/-- The mutex that a wrapper has released and will acquire again before it returns. -/
def Stage.relocks : Stage → Option Nat
  | .condWoken _ _ mu _ => some mu
  | .retry (.relock _ mu _) => some mu
  | _ => none

section Objects

variable {sh sh' : Shared} {chan : Chan}

/-! ### The writes -/

theorem object_setMutex {mu : Nat} (other : chan ≠ .mutex mu) (m : Mutex) :
    (sh.setMutex mu m).object chan = sh.object chan := by
  cases chan with
  | mutex other' =>
    have different : other' ≠ mu := fun same => other (by rw [same])
    exact congrArg Object.mutex (Function.update_of_ne different _ _)
  | _ => rfl

theorem object_setRWLock {rw : Nat} (other : chan ≠ .rwlock rw) (l : RWLock) :
    (sh.setRWLock rw l).object chan = sh.object chan := by
  cases chan with
  | rwlock other' =>
    have different : other' ≠ rw := fun same => other (by rw [same])
    exact congrArg Object.rwlock (Function.update_of_ne different _ _)
  | _ => rfl

theorem object_setSem {sem : Nat} (other : chan ≠ .sem sem) (value : Nat) :
    (sh.setSem sem value).object chan = sh.object chan := by
  cases chan with
  | sem other' =>
    have different : other' ≠ sem := fun same => other (by rw [same])
    exact congrArg Object.sem (Function.update_of_ne different _ _)
  | _ => rfl

theorem object_setBarrier {barrier : Nat} (other : chan ≠ .barrier barrier) (b : Option Barrier) :
    { sh with barriers := Function.update sh.barriers barrier b }.object chan = sh.object chan := by
  cases chan with
  | barrier other' =>
    have different : other' ≠ barrier := fun same => other (by rw [same])
    exact congrArg Object.barrier (Function.update_of_ne different _ _)
  | _ => rfl

theorem object_setLineup {opaqueType : Nat} (other : chan ≠ .lineup opaqueType) (b : Option Lineup) :
    { sh with refcntBars := Function.update sh.refcntBars opaqueType b }.object chan =
      sh.object chan := by
  cases chan with
  | lineup other' =>
    have different : other' ≠ opaqueType := fun same => other (by rw [same])
    exact congrArg Object.lineup (Function.update_of_ne different _ _)
  | _ => rfl

theorem object_noteWait {o : Options} {cv : Nat} {role : AddrNRole} :
    (noteWait o sh cv role).object chan = sh.object chan := by
  unfold noteWait
  split <;> rfl

theorem object_noteUnblocked {cv : Nat} {role : AddrNRole} :
    (sh.noteUnblocked cv role).object chan = sh.object chan := by
  unfold Shared.noteUnblocked
  dsimp only
  split <;> rfl

theorem object_noteSignal {o : Options} {cv : Nat} :
    (noteSignal o sh cv).1.object chan = sh.object chan := by
  have counted : (if 0 < sh.condMap cv then sh.addCond cv (-1) else sh).object chan =
      sh.object chan := by
    split <;> rfl
  unfold noteSignal
  dsimp only
  split
  · exact object_noteUnblocked.trans counted
  · exact counted

theorem object_goOnFor {o : Options} {self : Local} {cv : Nat} {role : Option RolePtr} :
    (goOnFor o sh self cv role).1.object chan = sh.object chan := by
  unfold goOnFor
  split
  · split
    · rfl
    · split
      · unfold chooseRole
        repeat' split
        all_goals rfl
      · rfl
  · rfl

/-! ### The try-operations -/

theorem object_trylock {tid : Tid} {mu : Nat} (other : chan ≠ .mutex mu)
    (got : ((sh.mutex mu).trylock tid).map (sh.setMutex mu) = some sh') :
    sh'.object chan = sh.object chan := by
  obtain ⟨m, -, rfl⟩ := Option.map_eq_some_iff.mp got
  exact object_setMutex other m

theorem object_tryRWLock {taken : Option RWLock} {rw : Nat} (other : chan ≠ .rwlock rw)
    (got : taken.map (sh.setRWLock rw) = some sh') : sh'.object chan = sh.object chan := by
  obtain ⟨l, -, rfl⟩ := Option.map_eq_some_iff.mp got
  exact object_setRWLock other l

theorem object_semTrywait {sem : Nat} (other : chan ≠ .sem sem) (got : sh.semTrywait sem = some sh') :
    sh'.object chan = sh.object chan := by
  unfold Shared.semTrywait at got
  split at got
  · cases got
  · cases got
    exact object_setSem other _

theorem object_attempt {tid : Tid} {loop : Loop} (other : chan ≠ loop.chan)
    (got : loop.attempt tid sh = some sh') : sh'.object chan = sh.object chan := by
  cases loop with
  | mutexLock mu => exact object_trylock other got
  | mutexTimedLock mu _ => exact object_trylock other got
  | relock _ mu _ => exact object_trylock other got
  | rdlock rw => exact object_tryRWLock other got
  | wrlock rw => exact object_tryRWLock other got
  | semWait sem => exact object_semTrywait other got
  | semTimedWait sem _ => exact object_semTrywait other got

end Objects

/-! ### The turns -/

section Turns

variable {σ : Type} {S : Serializer σ} {o : Options} {tid : Tid} {e : Env σ} {chan : Chan}

theorem ne_of_object {object : Option Chan} {on : Chan} (other : object ≠ some chan)
    (isOn : object = some on) : chan ≠ on := fun same => other (by rw [isOn, same])

theorem enter_frame {loop : Loop} (other : chan ≠ loop.chan) :
    (loop.enter o tid e).1.shared.object chan = e.shared.object chan := by
  cases got : loop.attempt tid e.shared with
  | none =>
    rw [Loop.enter_of_none got]
    cases loop <;> rfl
  | some shared =>
    rw [Loop.enter_of_some got, Loop.leave_shared]
    exact object_attempt other got

theorem tryOnce_frame {attempt : Option Shared}
    (tries : ∀ shared, attempt = some shared → shared.object chan = e.shared.object chan) :
    (tryOnce e attempt).1.shared.object chan = e.shared.object chan := by
  cases attempt with
  | none => rfl
  | some shared => exact tries shared rfl

theorem condWait_frame {cv mu caller : Nat} (other : chan ≠ .mutex mu) :
    (condWait S o tid e cv mu caller).1.shared.object chan = e.shared.object chan :=
  (object_setMutex other _).trans object_noteWait

theorem pthreadJoin_frame {th : PthreadT} :
    (pthreadJoin S e th).1.shared.object chan = e.shared.object chan := by
  unfold pthreadJoin
  split <;> rfl

theorem sleepFor_frame {ts : Option Timespec} :
    (sleepFor S o e ts).1.shared.object chan = e.shared.object chan := by
  unfold sleepFor
  split
  · split <;> rfl
  · rfl

theorem callTurn_frame {call : Call} (other : call.object ≠ some chan) :
    (callTurn S o tid e call).1.shared.object chan = e.shared.object chan := by
  cases call with
  | join th => exact pthreadJoin_frame
  | mutexInit mu kind => exact object_setMutex (ne_of_object other rfl) _
  | mutexLock mu => exact enter_frame (ne_of_object other rfl)
  | mutexTryLock mu =>
    exact tryOnce_frame fun shared got => object_trylock (ne_of_object other rfl) got
  | mutexTimedLock mu cur abstime =>
    show (mutexTimedLock S o tid e mu cur abstime).1.shared.object chan = _
    unfold mutexTimedLock
    split
    · exact enter_frame (ne_of_object other rfl)
    · split
      · exact enter_frame (ne_of_object other rfl)
      · rfl
  | mutexUnlock mu => exact object_setMutex (ne_of_object other rfl) _
  | rwlockInit rw => exact object_setRWLock (ne_of_object other rfl) _
  | rdlock rw => exact enter_frame (ne_of_object other rfl)
  | wrlock rw => exact enter_frame (ne_of_object other rfl)
  | tryrdlock rw =>
    exact tryOnce_frame fun shared got => object_tryRWLock (ne_of_object other rfl) got
  | trywrlock rw =>
    exact tryOnce_frame fun shared got => object_tryRWLock (ne_of_object other rfl) got
  | rwlockUnlock rw => exact object_setRWLock (ne_of_object other rfl) _
  | barrierInit barrier count => exact object_setBarrier (ne_of_object other rfl) _
  | barrierWait barrier =>
    show (barrierWait S e barrier).1.shared.object chan = _
    unfold barrierWait
    dsimp only
    split
    · rfl
    · split <;> exact object_setBarrier (ne_of_object other rfl) _
  | barrierDestroy barrier => exact object_setBarrier (ne_of_object other rfl) _
  | condWait cv mu caller => exact condWait_frame (ne_of_object other rfl)
  | condTimedWait cv mu caller cur abstime =>
    show (condTimedWait S o tid e cv mu caller cur abstime).1.shared.object chan = _
    unfold condTimedWait
    split
    · exact condWait_frame (ne_of_object other rfl)
    · have released : (e.shared.setMutex mu ((e.shared.mutex mu).unlock tid).1).object chan =
          e.shared.object chan := object_setMutex (ne_of_object other rfl) _
      dsimp only
      split <;> exact object_noteWait.trans released
  | condSignal cv => exact object_goOnFor.trans object_noteSignal
  | condBroadcast cv =>
    show (condBroadcast S o e cv).1.shared.object chan = _
    unfold condBroadcast
    dsimp only
    split <;> rfl
  | semInit sem value => exact object_setSem (ne_of_object other rfl) _
  | semWait sem => exact enter_frame (ne_of_object other rfl)
  | semTryWait sem =>
    show (semTryWait e sem).1.shared.object chan = _
    unfold semTryWait
    split
    · rename_i got
      exact object_semTrywait (ne_of_object other rfl) got
    · rfl
  | semTimedWait sem cur abstime =>
    show (semTimedWait S o tid e sem cur abstime).1.shared.object chan = _
    unfold semTimedWait
    split
    · exact enter_frame (ne_of_object other rfl)
    · split
      · exact enter_frame (ne_of_object other rfl)
      · rfl
  | semPost sem =>
    have posted : (e.shared.setSem sem (e.shared.sem sem + 1)).object chan =
        e.shared.object chan := object_setSem (ne_of_object other rfl) _
    show (semPost S o e sem).1.shared.object chan = _
    unfold semPost
    dsimp only
    split <;> exact posted
  | lineupInit opaqueType count timeoutTurns => exact object_setLineup (ne_of_object other rfl) _
  | lineupDestroy opaqueType => exact object_setLineup (ne_of_object other rfl) _
  | lineupStart opaqueType =>
    show (lineupStart S e opaqueType).1.shared.object chan = _
    unfold lineupStart
    dsimp only
    split
    · rfl
    · split
      · split <;> exact object_setLineup (ne_of_object other rfl) _
      · split <;> exact object_setLineup (ne_of_object other rfl) _
  | lineupEnd opaqueType =>
    show (lineupEnd e opaqueType).1.shared.object chan = _
    unfold lineupEnd
    split
    · rfl
    · exact object_setLineup (ne_of_object other rfl) _
  | sleep seconds => exact sleepFor_frame
  | usleep usec => exact sleepFor_frame
  | nanosleep req => exact sleepFor_frame
  | _ => rfl

/-- **A turn leaves alone the objects that it does not work on.** -/
theorem turn_frame {stage : Stage} (other : stage.object ≠ some chan) :
    (turn S o tid e stage).1.shared.object chan = e.shared.object chan := by
  cases stage with
  | called call => exact callTurn_frame other
  | retry loop =>
    show (loop.resume S o tid e).1.shared.object chan = _
    rw [Loop.resume_eq_enter]
    exact enter_frame (ne_of_object other rfl)
  | condWoken timed cv mu role =>
    show (condWoken S o tid e timed cv mu role).1.shared.object chan = _
    unfold condWoken
    split
    · refine (enter_frame (ne_of_object other rfl)).trans ?_
      split
      · unfold condTimedOut
        dsimp only
        split
        · exact object_noteUnblocked
        · rfl
      · rfl
    · exact enter_frame (ne_of_object other rfl)
  | joining th => exact pthreadJoin_frame
  | lineupWoken opaqueType =>
    show (lineupWoken S e opaqueType).1.shared.object chan = _
    unfold lineupWoken
    split
    · rfl
    · split
      · exact object_setLineup (ne_of_object other rfl) _
      · rfl
  | _ => rfl

theorem turn_mutex {stage : Stage} {mu : Nat} (other : stage.object ≠ some (.mutex mu)) :
    (turn S o tid e stage).1.shared.mutex mu = e.shared.mutex mu :=
  Object.mutex.inj (turn_frame other)

theorem turn_rwlock {stage : Stage} {rw : Nat} (other : stage.object ≠ some (.rwlock rw)) :
    (turn S o tid e stage).1.shared.rwlock rw = e.shared.rwlock rw :=
  Object.rwlock.inj (turn_frame other)

theorem turn_barriers {stage : Stage} {barrier : Nat}
    (other : stage.object ≠ some (.barrier barrier)) :
    (turn S o tid e stage).1.shared.barriers barrier = e.shared.barriers barrier :=
  Object.barrier.inj (turn_frame other)

theorem turn_refcntBars {stage : Stage} {opaqueType : Nat}
    (other : stage.object ≠ some (.lineup opaqueType)) :
    (turn S o tid e stage).1.shared.refcntBars opaqueType = e.shared.refcntBars opaqueType :=
  Object.lineup.inj (turn_frame other)

/-- A wait with a deadline on a condition variable, unless the process ends. -/
theorem condTimedWait_shared {cv mu caller : Nat} {cur abstime : Timespec}
    (goes : (turn S o tid e (.called (.condTimedWait cv mu caller cur (some abstime)))).2 ≠ .exit) :
    ∃ timeout,
      (turn S o tid e (.called (.condTimedWait cv mu caller cur (some abstime)))).2 =
        .wait (some (.cond cv)) timeout (.condWoken true cv mu (e.roleOf S tid caller)) ∧
      (turn S o tid e (.called (.condTimedWait cv mu caller cur (some abstime)))).1.shared =
        noteWait o ((e.shared.setMutex mu ((e.shared.mutex mu).unlock tid).1).addCond cv 1) cv
          (e.roleOf S tid caller) := by
  revert goes
  show (condTimedWait S o tid e cv mu caller cur (some abstime)).2 ≠ .exit → ∃ timeout,
    (condTimedWait S o tid e cv mu caller cur (some abstime)).2 =
        .wait (some (.cond cv)) timeout (.condWoken true cv mu (e.roleOf S tid caller)) ∧
      (condTimedWait S o tid e cv mu caller cur (some abstime)).1.shared = _
  unfold condTimedWait
  dsimp only
  split
  · exact fun _ => ⟨_, rfl, rfl⟩
  · exact fun goes => absurd rfl goes

/-! ### The runtime's own maps -/

/-- What the runtime notes about the threads that wait. -/
structure Books where
  condMap : Nat → Int
  semMap : Nat → Int
  line : Option Nat → Option RolePtr
  count : AddrNRole → Option Int

def Shared.books (sh : Shared) : Books :=
  ⟨sh.condMap, sh.semMap, sh.blockedCvLineMap, sh.blockedCvCountMap⟩

/-- The wrapper may write these maps in its first turn. -/
def Call.notes : Call → Bool
  | .condWait _ _ _ => true
  | .condTimedWait _ _ _ _ _ => true
  | .condSignal _ => true
  | .condBroadcast _ => true
  | .semWait _ => true
  | .semTimedWait _ _ _ => true
  | .semPost _ => true
  | _ => false

def Loop.notes : Loop → Bool
  | .semWait _ => true
  | .semTimedWait _ _ => true
  | _ => false

/-- The turn may write these maps; a wait on a condition variable that has expired does. -/
def Stage.notes (reason : WakeReason) : Stage → Bool
  | .called call => call.notes
  | .retry loop => loop.notes
  | .condWoken timed _ _ _ => timed && decide (reason = .timedout)
  | _ => false

theorem attempt_books {sh sh' : Shared} {loop : Loop} (got : loop.attempt tid sh = some sh') :
    sh'.books = sh.books := by
  have semTrywait : ∀ {sem}, sh.semTrywait sem = some sh' → sh'.books = sh.books := by
    intro sem got
    unfold Shared.semTrywait at got
    split at got
    · cases got
    · cases got
      rfl
  cases loop with
  | semWait sem => exact semTrywait got
  | semTimedWait sem _ => exact semTrywait got
  | _ =>
    obtain ⟨_, -, rfl⟩ := Option.map_eq_some_iff.mp got
    rfl

theorem enter_books {loop : Loop} (quiet : loop.notes = false) :
    (loop.enter o tid e).1.shared.books = e.shared.books := by
  cases got : loop.attempt tid e.shared with
  | some shared =>
    rw [Loop.enter_of_some got, Loop.leave_shared]
    exact attempt_books got
  | none =>
    rw [Loop.enter_of_none got]
    cases loop with
    | semWait _ => cases quiet
    | semTimedWait _ _ => cases quiet
    | _ => rfl

theorem tryOnce_books {attempt : Option Shared}
    (tries : ∀ shared, attempt = some shared → shared.books = e.shared.books) :
    (tryOnce e attempt).1.shared.books = e.shared.books := by
  cases attempt with
  | none => rfl
  | some shared => exact tries shared rfl

theorem pthreadJoin_books {th : PthreadT} : (pthreadJoin S e th).1.shared.books = e.shared.books := by
  unfold pthreadJoin
  split <;> rfl

theorem sleepFor_books {ts : Option Timespec} :
    (sleepFor S o e ts).1.shared.books = e.shared.books := by
  unfold sleepFor
  split
  · split <;> rfl
  · rfl

theorem callTurn_books {call : Call} (quiet : call.notes = false) :
    (callTurn S o tid e call).1.shared.books = e.shared.books := by
  have tries : ∀ {α : Type} {taken : Option α} {put : α → Shared},
      (∀ a, (put a).books = e.shared.books) →
      ∀ shared, taken.map put = some shared → shared.books = e.shared.books := by
    intro α taken put same shared got
    obtain ⟨a, -, rfl⟩ := Option.map_eq_some_iff.mp got
    exact same a
  cases call with
  | join th => exact pthreadJoin_books
  | mutexLock mu => exact enter_books rfl
  | mutexTryLock mu => exact tryOnce_books (tries fun _ => rfl)
  | mutexTimedLock mu cur abstime =>
    show (mutexTimedLock S o tid e mu cur abstime).1.shared.books = _
    unfold mutexTimedLock
    split
    · exact enter_books rfl
    · split
      · exact enter_books rfl
      · rfl
  | rdlock rw => exact enter_books rfl
  | wrlock rw => exact enter_books rfl
  | tryrdlock rw => exact tryOnce_books (tries fun _ => rfl)
  | trywrlock rw => exact tryOnce_books (tries fun _ => rfl)
  | barrierWait barrier =>
    show (barrierWait S e barrier).1.shared.books = _
    unfold barrierWait
    dsimp only
    split
    · rfl
    · split <;> rfl
  | semTryWait sem =>
    show (semTryWait e sem).1.shared.books = _
    unfold semTryWait
    split
    · rename_i got
      exact @attempt_books tid e.shared _ (.semWait sem) got
    · rfl
  | lineupStart opaqueType =>
    show (lineupStart S e opaqueType).1.shared.books = _
    unfold lineupStart
    dsimp only
    split
    · rfl
    · split <;> split <;> rfl
  | lineupEnd opaqueType =>
    show (lineupEnd e opaqueType).1.shared.books = _
    unfold lineupEnd
    split <;> rfl
  | sleep seconds => exact sleepFor_books
  | usleep usec => exact sleepFor_books
  | nanosleep req => exact sleepFor_books
  | condWait _ _ _ => cases quiet
  | condTimedWait _ _ _ _ _ => cases quiet
  | condSignal _ => cases quiet
  | condBroadcast _ => cases quiet
  | semWait _ => cases quiet
  | semTimedWait _ _ _ => cases quiet
  | semPost _ => cases quiet
  | _ => rfl

/-- What an expired wait on a condition variable returns. -/
theorem timedout_of_wakeRet (expired : e.wakeRet S tid = WakeReason.timedout.toInt) :
    ((S.core e.sched).waits tid).wakeReason = .timedout := by
  unfold Env.wakeRet at expired
  cases reason : ((S.core e.sched).waits tid).wakeReason with
  | timedout => rfl
  | signal =>
    rw [reason] at expired
    cases expired

/-- **The other turns leave the runtime's maps alone.** -/
theorem turn_books {stage : Stage}
    (quiet : stage.notes ((S.core e.sched).waits tid).wakeReason = false) :
    (turn S o tid e stage).1.shared.books = e.shared.books := by
  cases stage with
  | called call => exact callTurn_books quiet
  | retry loop =>
    show (loop.resume S o tid e).1.shared.books = _
    rw [Loop.resume_eq_enter]
    exact enter_books quiet
  | condWoken timed cv mu role =>
    show (condWoken S o tid e timed cv mu role).1.shared.books = _
    unfold condWoken
    split
    · rename_i isTimed
      subst isTimed
      have onTime : e.wakeRet S tid ≠ WakeReason.timedout.toInt := by
        intro expired
        rw [timedout_of_wakeRet expired] at quiet
        cases quiet
      refine (enter_books rfl).trans ?_
      rw [if_neg onTime]
    · exact enter_books rfl
  | joining th => exact pthreadJoin_books
  | lineupWoken opaqueType =>
    show (lineupWoken S e opaqueType).1.shared.books = _
    unfold lineupWoken
    split
    · rfl
    · split <;> rfl
  | _ => rfl

/-! ### The thread's own variables -/

/-- The wrapper may write its thread's own variables in its first turn. -/
def Call.marks : Call → Bool
  | .mutexLock _ => true
  | .mutexTimedLock _ _ none => true
  | .mutexUnlock _ => true
  | .condSignal _ => true
  | .condBroadcast _ => true
  | .semPost _ => true
  | .schedYield => true
  | _ => false

/-- The turn may write its thread's own variables. -/
def Stage.marks (reason : WakeReason) : Stage → Bool
  | .called call => call.marks
  | .retry (.mutexLock _) => true
  | .condWoken timed _ _ _ => timed && decide (reason = .timedout)
  | _ => false

theorem enter_self {loop : Loop} (notLock : ∀ mu, loop ≠ .mutexLock mu) :
    (loop.enter o tid e).1.self = e.self := by
  unfold Loop.enter
  split
  · cases loop with
    | mutexLock mu => exact absurd rfl (notLock mu)
    | _ => rfl
  · rfl

theorem callTurn_self {call : Call} (quiet : call.marks = false) :
    (callTurn S o tid e call).1.self = e.self := by
  have once : ∀ attempt : Option Shared, (tryOnce e attempt).1.self = e.self := by
    intro attempt
    cases attempt <;> rfl
  have sleeps : ∀ ts, (sleepFor S o e ts).1.self = e.self := by
    intro ts
    unfold sleepFor
    split
    · split <;> rfl
    · rfl
  cases call with
  | join th =>
    show (pthreadJoin S e th).1.self = _
    unfold pthreadJoin
    split <;> rfl
  | mutexLock mu => cases quiet
  | mutexTryLock mu => exact once _
  | mutexTimedLock mu cur abstime =>
    show (mutexTimedLock S o tid e mu cur abstime).1.self = _
    unfold mutexTimedLock
    split
    · cases quiet
    · split
      · exact enter_self nofun
      · rfl
  | mutexUnlock mu => cases quiet
  | rdlock rw => exact enter_self nofun
  | wrlock rw => exact enter_self nofun
  | tryrdlock rw => exact once _
  | trywrlock rw => exact once _
  | barrierWait barrier =>
    show (barrierWait S e barrier).1.self = _
    unfold barrierWait
    dsimp only
    split
    · rfl
    · split <;> rfl
  | condTimedWait cv mu caller cur abstime =>
    show (condTimedWait S o tid e cv mu caller cur abstime).1.self = _
    unfold condTimedWait
    split
    · rfl
    · dsimp only
      split <;> rfl
  | condSignal _ => cases quiet
  | condBroadcast _ => cases quiet
  | semWait sem => exact enter_self nofun
  | semTryWait sem =>
    show (semTryWait e sem).1.self = _
    unfold semTryWait
    split <;> rfl
  | semTimedWait sem cur abstime =>
    show (semTimedWait S o tid e sem cur abstime).1.self = _
    unfold semTimedWait
    split
    · exact enter_self nofun
    · split
      · exact enter_self nofun
      · rfl
  | semPost _ => cases quiet
  | lineupStart opaqueType =>
    show (lineupStart S e opaqueType).1.self = _
    unfold lineupStart
    dsimp only
    split
    · rfl
    · split <;> split <;> rfl
  | lineupEnd opaqueType =>
    show (lineupEnd e opaqueType).1.self = _
    unfold lineupEnd
    split <;> rfl
  | schedYield => cases quiet
  | sleep seconds => exact sleeps _
  | usleep usec => exact sleeps _
  | nanosleep req => exact sleeps _
  | _ => rfl

/-- **The other turns leave their thread's own variables alone.** -/
theorem turn_self {stage : Stage}
    (quiet : stage.marks ((S.core e.sched).waits tid).wakeReason = false) :
    (turn S o tid e stage).1.self = e.self := by
  cases stage with
  | called call => exact callTurn_self quiet
  | retry loop =>
    show (loop.resume S o tid e).1.self = _
    rw [Loop.resume_eq_enter]
    refine enter_self fun mu isLock => ?_
    rw [isLock] at quiet
    cases quiet
  | condWoken timed cv mu role =>
    show (condWoken S o tid e timed cv mu role).1.self = _
    unfold condWoken
    split
    · rename_i isTimed
      subst isTimed
      have onTime : e.wakeRet S tid ≠ WakeReason.timedout.toInt := by
        intro expired
        rw [timedout_of_wakeRet expired] at quiet
        cases quiet
      refine (@enter_self _ o tid _ (.relock cv mu _) nofun).trans ?_
      rw [if_neg onTime]
    · exact enter_self nofun
  | joining th =>
    show (pthreadJoin S e th).1.self = _
    unfold pthreadJoin
    split <;> rfl
  | lineupWoken opaqueType =>
    show (lineupWoken S e opaqueType).1.self = _
    unfold lineupWoken
    split
    · rfl
    · split <;> rfl
  | _ => rfl

/-- The turn counts critical sections. -/
def Stage.counts : Stage → Bool
  | .called (.mutexLock _) => true
  | .called (.mutexTimedLock _ _ none) => true
  | .called (.mutexUnlock _) => true
  | .retry (.mutexLock _) => true
  | _ => false

/-- **The writes of a turn to its thread's own variables**: the level, what the thread goes on for, and
`yield_this`. A part that none of these touch is kept. -/
theorem turn_field {α : Type} {stage : Stage} (field : Local → α)
    (level : stage.counts = true → ∀ l inCSLevel, field { l with inCSLevel := inCSLevel } = field l)
    (goals : ∀ l cv sem role, field { l with satisfyingCV := cv, satisfyingSem := sem, satisfyingRole := role } =
      field l)
    (yields : stage = .called .schedYield → ∀ l, field { l with yieldThis := true } = field l) :
    field (turn S o tid e stage).1.self = field e.self := by
  have locked : ∀ mu, stage.counts = true →
      field ((Loop.mutexLock mu).enter o tid e).1.self = field e.self := by
    intro mu counts
    unfold Loop.enter
    split
    · unfold Loop.leave
      dsimp only
      split
      · exact level counts _ _
      · rfl
    · rfl
  cases marks : stage.marks ((S.core e.sched).waits tid).wakeReason with
  | false => rw [turn_self marks]
  | true =>
    cases stage with
    | called call =>
      cases call with
      | mutexLock mu => exact locked mu rfl
      | mutexTimedLock mu cur abstime =>
        cases abstime with
        | none => exact locked mu rfl
        | some abstime => cases marks
      | mutexUnlock mu =>
        show field (mutexUnlock S o tid e mu).1.self = _
        unfold mutexUnlock Env.signal
        dsimp only
        split
        · exact level rfl _ _
        · rfl
      | condSignal cv =>
        show field (goOnFor o _ e.self cv _).2 = _
        unfold goOnFor chooseRole
        repeat' split
        all_goals first
          | rfl
          | exact goals e.self _ _ _
      | condBroadcast cv =>
        show field (condBroadcast S o e cv).1.self = _
        unfold condBroadcast Env.signal
        dsimp only
        split
        · exact goals e.self _ _ _
        · rfl
      | semPost sem =>
        show field (semPost S o e sem).1.self = _
        unfold semPost Env.signal
        dsimp only
        repeat' split
        all_goals first
          | rfl
          | exact goals e.self _ _ _
      | schedYield => exact yields rfl e.self
      | _ => cases marks
    | retry loop =>
      cases loop with
      | mutexLock mu =>
        show field ((Loop.mutexLock mu).resume S o tid e).1.self = _
        rw [Loop.resume_eq_enter]
        exact locked mu rfl
      | _ => cases marks
    | condWoken timed cv mu role =>
      show field (condWoken S o tid e timed cv mu role).1.self = _
      unfold condWoken
      split
      · dsimp only
        rw [@enter_self _ o tid _ (.relock cv mu _) nofun]
        split
        · unfold condTimedOut
          dsimp only
          repeat' split
          all_goals first
            | rfl
            | exact goals e.self _ _ _
        · rfl
      · rw [@enter_self _ o tid _ (.relock cv mu _) nofun]
    | _ => cases marks

/-! ### What a thread waits on -/

/-- What a wrapper waits on when it has to wait in its first turn. -/
def Call.awaits : Call → Option Chan
  | .join th => some (.thread th)
  | .mutexLock mu => some (.mutex mu)
  | .mutexTimedLock mu _ _ => some (.mutex mu)
  | .rdlock rw => some (.rwlock rw)
  | .wrlock rw => some (.rwlock rw)
  | .barrierWait barrier => some (.barrier barrier)
  | .condWait cv _ _ => some (.cond cv)
  | .condTimedWait cv _ _ _ _ => some (.cond cv)
  | .semWait sem => some (.sem sem)
  | .semTimedWait sem _ _ => some (.sem sem)
  | .lineupStart opaqueType => some (.lineup opaqueType)
  | _ => none

/-- What a thread waits on when its turn ends in a wait. -/
def Stage.awaits : Stage → Option Chan
  | .called call => call.awaits
  | .retry loop => some loop.chan
  | .condWoken _ _ mu _ => some (.mutex mu)
  | .joining th => some (.thread th)
  | _ => none

/-- If the thread waits, it waits on this channel. -/
def Finish.WaitsOn (on : Option Chan) : Finish → Prop
  | .wait chan _ _ => chan = on
  | _ => True

theorem leave_waitsOn {loop : Loop} {ret : Result} {on : Option Chan} :
    (loop.leave o e ret).2.WaitsOn on := by
  cases loop <;> trivial

theorem enter_waitsOn {loop : Loop} : (loop.enter o tid e).2.WaitsOn (some loop.chan) := by
  unfold Loop.enter
  split
  · exact leave_waitsOn
  · exact rfl

theorem pthreadJoin_waitsOn {th : PthreadT} :
    (pthreadJoin S e th).2.WaitsOn (some (.thread th)) := by
  unfold pthreadJoin
  split
  · trivial
  · exact rfl

theorem tryOnce_waitsOn {attempt : Option Shared} {on : Option Chan} :
    (tryOnce e attempt).2.WaitsOn on := by
  cases attempt <;> trivial

theorem sleepFor_waitsOn {ts : Option Timespec} : (sleepFor S o e ts).2.WaitsOn none := by
  unfold sleepFor
  split
  · split
    · exact rfl
    · trivial
  · trivial

theorem callTurn_waitsOn {call : Call} : (callTurn S o tid e call).2.WaitsOn call.awaits := by
  cases call with
  | join th => exact pthreadJoin_waitsOn
  | mutexLock mu => exact enter_waitsOn
  | mutexTryLock mu => exact tryOnce_waitsOn
  | mutexTimedLock mu cur abstime =>
    show (mutexTimedLock S o tid e mu cur abstime).2.WaitsOn _
    unfold mutexTimedLock
    split
    · exact enter_waitsOn
    · split
      · exact enter_waitsOn
      · trivial
  | rdlock rw => exact enter_waitsOn
  | wrlock rw => exact enter_waitsOn
  | tryrdlock rw => exact tryOnce_waitsOn
  | trywrlock rw => exact tryOnce_waitsOn
  | barrierWait barrier =>
    show (barrierWait S e barrier).2.WaitsOn _
    unfold barrierWait
    dsimp only
    split
    · trivial
    · split
      · trivial
      · exact rfl
  | condWait cv mu caller => exact rfl
  | condTimedWait cv mu caller cur abstime =>
    show (condTimedWait S o tid e cv mu caller cur abstime).2.WaitsOn _
    unfold condTimedWait
    split
    · exact rfl
    · dsimp only
      split
      · exact rfl
      · trivial
  | semWait sem => exact enter_waitsOn
  | semTryWait sem =>
    show (semTryWait e sem).2.WaitsOn _
    unfold semTryWait
    split <;> trivial
  | semTimedWait sem cur abstime =>
    show (semTimedWait S o tid e sem cur abstime).2.WaitsOn _
    unfold semTimedWait
    split
    · exact enter_waitsOn
    · split
      · exact enter_waitsOn
      · trivial
  | lineupStart opaqueType =>
    show (lineupStart S e opaqueType).2.WaitsOn _
    unfold lineupStart
    dsimp only
    split
    · trivial
    · split
      · split <;> trivial
      · split
        · exact rfl
        · trivial
  | lineupEnd opaqueType =>
    show (lineupEnd e opaqueType).2.WaitsOn _
    unfold lineupEnd
    split <;> trivial
  | sleep seconds => exact sleepFor_waitsOn
  | usleep usec => exact sleepFor_waitsOn
  | nanosleep req => exact sleepFor_waitsOn
  | _ => trivial

/-- **A thread waits on what its stage says.** -/
theorem turn_waitsOn {stage : Stage} : (turn S o tid e stage).2.WaitsOn stage.awaits := by
  cases stage with
  | called call => exact callTurn_waitsOn
  | retry loop =>
    show (loop.resume S o tid e).2.WaitsOn _
    rw [Loop.resume_eq_enter]
    exact enter_waitsOn
  | condWoken timed cv mu role =>
    show (condWoken S o tid e timed cv mu role).2.WaitsOn _
    unfold condWoken
    split <;> exact enter_waitsOn
  | joining th => exact pthreadJoin_waitsOn
  | lineupWoken opaqueType =>
    show (lineupWoken S e opaqueType).2.WaitsOn _
    unfold lineupWoken
    split
    · trivial
    · split <;> trivial
  | _ => trivial

end Turns

/-! ### Channels of objects -/

/-- The channels with an object behind them. -/
def Chan.isObject : Chan → Bool
  | .mutex _ => true
  | .rwlock _ => true
  | .sem _ => true
  | .barrier _ => true
  | .lineup _ => true
  | _ => false

section Objects

variable {stage : Stage} {on : Chan}

/-- A turn signals on the object that it works on. -/
theorem object_of_signals (isObject : on.isObject = true) (signals : stage.signals = some on) :
    stage.object = some on := by
  unfold Stage.signals at signals
  split at signals <;> first | exact signals | skip
  · cases signals
    cases isObject
  · cases signals
    cases isObject
  · cases signals

/-- A thread waits on the object that its turn works on. -/
theorem object_of_awaits (isObject : on.isObject = true) (awaits : stage.awaits = some on) :
    stage.object = some on := by
  cases stage with
  | called call =>
    cases call with
    | join th =>
      cases awaits
      cases isObject
    | condWait cv mu caller =>
      cases awaits
      cases isObject
    | condTimedWait cv mu caller cur abstime =>
      cases awaits
      cases isObject
    | _ => first | exact awaits | cases awaits
  | joining th =>
    cases awaits
    cases isObject
  | _ => first | exact awaits | cases awaits

end Objects

end MinSmt
