/-
**The reader-writer lock wrappers against the abstract lock.**

`__pthread_rwlock_rdlock` and `__pthread_rwlock_wrlock` try, wait and try again with the operation of
their own mode. `__pthread_rwlock_tryrdlock` tries for writing (`FIXME now using wrlock for all rdlock`):
it fails when there are readers, and when it succeeds the caller is the writer.

* `RWEvent` — a completed call, with its result.
* `RWLock.after`, `RWLock.Allows` — the abstract lock: who holds it after a call, and which results the
  call may have.
* `Refines` — along a run, the library's locks are those of the abstract lock that sees only the
  completed calls.
* `turn_rwlock` — what a turn does to the locks.
* **`rwlock_refines_iff`** — a run refines the abstract lock exactly when every
  `__pthread_rwlock_tryrdlock` in it meets a writer.
-/

import MinSmt.Runtime.Frames
import MinSmt.Runtime.Recorder

namespace MinSmt

open MinSmt.Library

/-! ### The abstract lock -/

/-- What a call does with a reader-writer lock. -/
inductive RWOp
  | init
  | rdlock
  | wrlock
  | tryrdlock
  | trywrlock
  | unlock
  deriving DecidableEq, Repr

/-- A completed call. -/
structure RWEvent where
  lock : Nat
  tid : Tid
  op : RWOp
  ret : Int
  deriving DecidableEq, Repr

namespace RWLock

/-- **Who holds the abstract lock after a call.** -/
def after (l : RWLock) (event : RWEvent) : RWLock :=
  match event.op with
  | .init => {}
  | .rdlock => { l with readers := event.tid :: l.readers }
  | .wrlock => { writer := some event.tid }
  | .tryrdlock => if event.ret = 0 then { l with readers := event.tid :: l.readers } else l
  | .trywrlock => if event.ret = 0 then { writer := some event.tid } else l
  | .unlock => l.unlock event.tid

/-- **Which results a call may have.** -/
def Allows (l : RWLock) (event : RWEvent) : Prop :=
  match event.op with
  | .rdlock => l.writer = none
  | .wrlock => l.held = false
  | .tryrdlock => event.ret = 0 ↔ l.writer = none
  | .trywrlock => event.ret = 0 ↔ l.held = false
  | _ => True

end RWLock

/-! ### What a turn does to the locks -/

/-- The lock that a wrapper works on, and how. -/
def Call.rwOp : Call → Option (Nat × RWOp)
  | .rwlockInit rw => some (rw, .init)
  | .rdlock rw => some (rw, .rdlock)
  | .wrlock rw => some (rw, .wrlock)
  | .tryrdlock rw => some (rw, .tryrdlock)
  | .trywrlock rw => some (rw, .trywrlock)
  | .rwlockUnlock rw => some (rw, .unlock)
  | _ => none

/-- The same for a thread inside a wrapper. -/
def Stage.rwOp : Stage → Option (Nat × RWOp)
  | .called call => call.rwOp
  | .retry (.rdlock rw) => some (rw, .rdlock)
  | .retry (.wrlock rw) => some (rw, .wrlock)
  | _ => none

/-- The call that a turn completes, when it gives the turn up like this. -/
def Finish.rwEvent (tid : Tid) (op : Option (Nat × RWOp)) : Finish → Option RWEvent
  | .done _ result => op.map fun on => ⟨on.1, tid, on.2, result.ret⟩
  | _ => none

section Turns

variable {S : Serializer Core} {o : Options} {tid : Tid} {e : Env Core}

/-- The abstract locks after what a turn completed. -/
def completes (locks : Nat → RWLock) : Option RWEvent → Nat → RWLock
  | none => locks
  | some event => Function.update locks event.lock ((locks event.lock).after event)

/-- **A turn refines the abstract lock**: what it completed is allowed, and it leaves the locks as the
abstract lock is then. -/
def TurnRefines (tid : Tid) (locks : Nat → RWLock) (stage : Stage) (e : Env Core × Finish) : Prop :=
  (∀ event ∈ e.2.rwEvent tid stage.rwOp, (locks event.lock).Allows event) ∧
    e.1.shared.rwlock = completes locks (e.2.rwEvent tid stage.rwOp)

/-- A turn that completes nothing, and leaves the locks alone. -/
theorem TurnRefines.of_none {stage : Stage} {locks : Nat → RWLock} {e : Env Core × Finish}
    (nothing : e.2.rwEvent tid stage.rwOp = none) (same : e.1.shared.rwlock = locks) :
    TurnRefines tid locks stage e := by
  unfold TurnRefines
  rw [nothing]
  exact ⟨fun _ isEvent => (nomatch isEvent), same⟩

/-- A turn that completes a call. -/
theorem TurnRefines.of_some {stage : Stage} {locks : Nat → RWLock} {e : Env Core × Finish}
    (event : RWEvent) (completed : e.2.rwEvent tid stage.rwOp = some event)
    (allowed : (locks event.lock).Allows event)
    (same : e.1.shared.rwlock =
      Function.update locks event.lock ((locks event.lock).after event)) :
    TurnRefines tid locks stage e := by
  unfold TurnRefines
  rw [completed]
  exact ⟨fun _ isEvent => Option.some.inj isEvent ▸ allowed, same⟩

theorem rwEvent_none (tid : Tid) (finish : Finish) : finish.rwEvent tid none = none := by
  cases finish <;> rfl

/-- A turn of another wrapper. -/
theorem refines_of_other {stage : Stage} (other : stage.rwOp = none) :
    TurnRefines tid e.shared.rwlock stage (turn S o tid e stage) := by
  refine .of_none ?_ ?_
  · rw [other]
    exact rwEvent_none tid _
  · funext rw
    refine turn_rwlock fun isLock => ?_
    cases stage with
    | called call =>
      cases call with
      | rwlockInit rw => cases other
      | rdlock rw => cases other
      | wrlock rw => cases other
      | tryrdlock rw => cases other
      | trywrlock rw => cases other
      | rwlockUnlock rw => cases other
      | _ => cases isLock
    | retry loop =>
      cases loop with
      | rdlock rw => cases other
      | wrlock rw => cases other
      | _ => cases isLock
    | _ => cases isLock

/-- A lock that is had for reading has no writer. -/
theorem tryrdlock_some {l l' : RWLock} (got : l.tryrdlock tid = some l') :
    l.writer = none ∧ l' = { l with readers := tid :: l.readers } := by
  unfold RWLock.tryrdlock at got
  split at got
  · cases got
  · rename_i free
    exact ⟨Option.not_isSome_iff_eq_none.mp free, (Option.some.inj got).symm⟩

/-- A lock that is had for writing was free. -/
theorem trywrlock_some {l l' : RWLock} (got : l.trywrlock tid = some l') :
    l.held = false ∧ l' = { writer := some tid } := by
  unfold RWLock.trywrlock at got
  split at got
  · cases got
  · rename_i free
    have readers : l.readers = [] := by
      unfold RWLock.held at free
      cases isReaders : l.readers with
      | nil => rfl
      | cons t rest =>
        rw [isReaders] at free
        exact absurd (Bool.or_true _) free
    refine ⟨Bool.not_eq_true _ ▸ free, ?_⟩
    rw [← Option.some.inj got, readers]

/-- `pthreadRWLockRdLockHelper` refines the abstract lock. -/
theorem rdlock_refines {stage : Stage} {rw : Nat} (isRd : stage.rwOp = some (rw, .rdlock)) :
    TurnRefines tid e.shared.rwlock stage ((Loop.rdlock rw).enter o tid e) := by
  cases got : (e.shared.rwlock rw).tryrdlock tid with
  | none =>
    have busy : (Loop.rdlock rw).attempt tid e.shared = none := by rw [Loop.attempt, got]; rfl
    rw [Loop.enter_of_none busy]
    exact .of_none rfl rfl
  | some l =>
    obtain ⟨free, isNext⟩ := tryrdlock_some got
    have taken : (Loop.rdlock rw).attempt tid e.shared = some (e.shared.setRWLock rw l) := by
      rw [Loop.attempt, got]
      rfl
    rw [Loop.enter_of_some taken]
    refine .of_some ⟨rw, tid, .rdlock, 0⟩ ?_ free ?_
    · rw [isRd]
      rfl
    · rw [isNext]
      rfl

/-- `pthreadRWLockWrLockHelper` refines the abstract lock. -/
theorem wrlock_refines {stage : Stage} {rw : Nat} (isWr : stage.rwOp = some (rw, .wrlock)) :
    TurnRefines tid e.shared.rwlock stage ((Loop.wrlock rw).enter o tid e) := by
  cases got : (e.shared.rwlock rw).trywrlock tid with
  | none =>
    have busy : (Loop.wrlock rw).attempt tid e.shared = none := by rw [Loop.attempt, got]; rfl
    rw [Loop.enter_of_none busy]
    exact .of_none rfl rfl
  | some l =>
    obtain ⟨free, isNext⟩ := trywrlock_some got
    have taken : (Loop.wrlock rw).attempt tid e.shared = some (e.shared.setRWLock rw l) := by
      rw [Loop.attempt, got]
      rfl
    rw [Loop.enter_of_some taken]
    refine .of_some ⟨rw, tid, .wrlock, 0⟩ ?_ free ?_
    · rw [isWr]
      rfl
    · rw [isNext]
      rfl

/-- `__pthread_rwlock_trywrlock` refines the abstract lock. -/
theorem trywrlock_refines (rw : Nat) :
    TurnRefines tid e.shared.rwlock (.called (.trywrlock rw))
      (turn S o tid e (.called (.trywrlock rw))) := by
  show TurnRefines _ _ _
    (tryOnce e (((e.shared.rwlock rw).trywrlock tid).map (e.shared.setRWLock rw)))
  cases got : (e.shared.rwlock rw).trywrlock tid with
  | none =>
    have held := RWLock.held_of_trywrlock got
    refine .of_some ⟨rw, tid, .trywrlock, ebusy⟩ rfl ?_ ?_
    · show (ebusy : Int) = 0 ↔ (e.shared.rwlock rw).held = false
      simp [held, ebusy]
    · exact (Function.update_eq_self rw e.shared.rwlock).symm
  | some l =>
    obtain ⟨free, isNext⟩ := trywrlock_some got
    refine .of_some ⟨rw, tid, .trywrlock, 0⟩ rfl ?_ ?_
    · exact ⟨fun _ => free, fun _ => rfl⟩
    · rw [isNext]
      rfl

/-- **`__pthread_rwlock_tryrdlock` refines the abstract lock only when there is a writer**: when there
are readers it must not fail, and when the lock is free it must not make a writer. -/
theorem tryrdlock_refines_iff (rw : Nat) :
    TurnRefines tid e.shared.rwlock (.called (.tryrdlock rw))
      (turn S o tid e (.called (.tryrdlock rw))) ↔ (e.shared.rwlock rw).writer.isSome = true := by
  show TurnRefines _ _ _
    (tryOnce e (((e.shared.rwlock rw).trywrlock tid).map (e.shared.setRWLock rw))) ↔ _
  cases got : (e.shared.rwlock rw).trywrlock tid with
  | none =>
    constructor
    · intro refines
      have allowed : (ebusy : Int) = 0 ↔ (e.shared.rwlock rw).writer = none :=
        refines.1 ⟨rw, tid, .tryrdlock, ebusy⟩ rfl
      exact Option.isSome_iff_ne_none.mpr fun isNone => by simpa [ebusy] using allowed.mpr isNone
    · intro written
      refine .of_some ⟨rw, tid, .tryrdlock, ebusy⟩ rfl ?_ ?_
      · show (ebusy : Int) = 0 ↔ (e.shared.rwlock rw).writer = none
        simp [Option.isSome_iff_ne_none.mp written, ebusy]
      · exact (Function.update_eq_self rw e.shared.rwlock).symm
  | some l =>
    obtain ⟨free, isNext⟩ := trywrlock_some got
    constructor
    · intro refines
      -- the caller is the writer, where the abstract lock has one more reader
      have same : Function.update e.shared.rwlock rw l rw =
          Function.update e.shared.rwlock rw
            { e.shared.rwlock rw with readers := tid :: (e.shared.rwlock rw).readers } rw :=
        congrFun refines.2 rw
      rw [Function.update_self, Function.update_self, isNext] at same
      cases congrArg RWLock.readers same
    · intro written
      unfold RWLock.held at free
      rw [written] at free
      cases free

/-- The lock that the turn asks for with `__pthread_rwlock_tryrdlock`. -/
def Stage.tryrdlocks : Stage → Option Nat
  | .called (.tryrdlock rw) => some rw
  | _ => none

/-- **A turn refines the abstract lock exactly when it is no `__pthread_rwlock_tryrdlock`, or one that
meets a writer.** -/
theorem turn_refines_iff (stage : Stage) :
    TurnRefines tid e.shared.rwlock stage (turn S o tid e stage) ↔
      ∀ rw ∈ stage.tryrdlocks, (e.shared.rwlock rw).writer.isSome = true := by
  have always : stage.tryrdlocks = none →
      TurnRefines tid e.shared.rwlock stage (turn S o tid e stage) →
      (TurnRefines tid e.shared.rwlock stage (turn S o tid e stage) ↔
        ∀ rw ∈ stage.tryrdlocks, (e.shared.rwlock rw).writer.isSome = true) := by
    intro none refines
    rw [none]
    exact ⟨fun _ _ isLock => (nomatch isLock), fun _ => refines⟩
  cases stage with
  | called call =>
    cases call with
    | rwlockInit rw => exact always rfl (.of_some ⟨rw, tid, .init, 0⟩ rfl trivial rfl)
    | rdlock rw => exact always rfl (rdlock_refines rfl)
    | wrlock rw => exact always rfl (wrlock_refines rfl)
    | trywrlock rw => exact always rfl (trywrlock_refines rw)
    | rwlockUnlock rw => exact always rfl (.of_some ⟨rw, tid, .unlock, 0⟩ rfl trivial rfl)
    | tryrdlock rw =>
      refine (tryrdlock_refines_iff rw).trans ⟨fun written rw' isLock => ?_, fun each => each rw rfl⟩
      exact Option.some.inj isLock ▸ written
    | _ => exact always rfl (refines_of_other rfl)
  | retry loop =>
    have enters : turn S o tid e (.retry loop) = loop.enter o tid e := Loop.resume_eq_enter e loop
    refine always rfl ?_
    cases loop with
    | rdlock rw => exact enters ▸ rdlock_refines rfl
    | wrlock rw => exact enters ▸ wrlock_refines rfl
    | _ => exact refines_of_other rfl
  | _ => exact always rfl (refines_of_other rfl)

end Turns

/-! ### Runs -/

namespace Recorder

variable (o : Options)

/-- The call on a reader-writer lock that a step completes. -/
def rwEvent (r : Recorder) (label : Tid × Move) : Option RWEvent :=
  (r.stageOf label.1 label.2).bind fun stage =>
    (r.turnOf o label.1 stage).2.rwEvent label.1 stage.rwOp

/-- **The run refines the abstract locks**: after each step, the library's locks are the abstract ones,
which see the completed calls only; and every completed call is allowed. -/
def Refines : Recorder → (Nat → RWLock) → List (Tid × Move) → Prop
  | r, locks, [] => r.shared.rwlock = locks
  | r, locks, label :: labels => r.shared.rwlock = locks ∧
      (∀ event ∈ r.rwEvent o label, (locks event.lock).Allows event) ∧
      ∀ next, r.step o label = some next → Refines next (completes locks (r.rwEvent o label)) labels

/-- A thread asks for a lock with `__pthread_rwlock_tryrdlock` only while there is a writer. -/
def ReadsUnderWriter (r : Recorder) (label : Tid × Move) : Prop :=
  ∀ rw ∈ (r.stageOf label.1 label.2).bind Stage.tryrdlocks, (r.shared.rwlock rw).writer.isSome = true

instance (r : Recorder) (label : Tid × Move) : Decidable (r.ReadsUnderWriter label) :=
  inferInstanceAs (Decidable (∀ _ ∈ _, _))

variable {o} {r r' : Recorder}

theorem Refines.same {locks : Nat → RWLock} {labels : List (Tid × Move)}
    (refines : Refines o r locks labels) : r.shared.rwlock = locks := by
  cases labels with
  | nil => exact refines
  | cons label labels => exact refines.1

/-- **A step refines the abstract locks exactly when it meets the condition.** -/
theorem step_refines_iff {label : Tid × Move} (nodup : r.core.waitq.Nodup)
    (stepped : r.step o label = some r') :
    ((∀ event ∈ r.rwEvent o label, (r.shared.rwlock event.lock).Allows event) ∧
        r'.shared.rwlock = completes r.shared.rwlock (r.rwEvent o label)) ↔
      r.ReadsUnderWriter label := by
  obtain ⟨tid, move⟩ := label
  have silent : r.stageOf tid move = none → r'.shared = r.shared →
      (((∀ event ∈ r.rwEvent o (tid, move), (r.shared.rwlock event.lock).Allows event) ∧
        r'.shared.rwlock = completes r.shared.rwlock (r.rwEvent o (tid, move))) ↔
      r.ReadsUnderWriter (tid, move)) := by
    intro noTurn same
    have noEvent : r.rwEvent o (tid, move) = none := by
      unfold rwEvent
      rw [noTurn]
      rfl
    unfold ReadsUnderWriter
    rw [noTurn, noEvent, same]
    exact ⟨fun _ _ isLock => (nomatch isLock), fun _ => ⟨fun _ isEvent => (nomatch isEvent), rfl⟩⟩
  rcases step_cases nodup stepped with ⟨stage, isStage, took⟩ | ⟨rfl, _, rfl⟩ | ⟨rfl, _, _, rfl⟩ |
    ⟨rfl, _, rfl⟩
  · have event : r.rwEvent o (tid, move) = (r.turnOf o tid stage).2.rwEvent tid stage.rwOp := by
      unfold rwEvent
      rw [isStage]
      rfl
    unfold ReadsUnderWriter
    rw [event, isStage, took.shared]
    exact @turn_refines_iff (Core.serializer o.wakeamapPlus) o tid (r.env tid) stage
  · exact silent rfl rfl
  · exact silent rfl rfl
  · exact silent rfl rfl

/-- **So does a run.** -/
theorem refines_iff {labels : List (Tid × Move)} (sound : Sound r.core r.spot)
    (ran : exec (step o) r labels = some r') :
    Refines o r r.shared.rwlock labels ↔ Along (step o) ReadsUnderWriter r labels := by
  induction labels generalizing r with
  | nil => exact ⟨fun _ => trivial, fun _ => rfl⟩
  | cons label labels ih =>
    obtain ⟨next, stepped, rest⟩ := exec_cons ran
    have here := step_refines_iff sound.nodup stepped
    have later := ih (sound_step sound stepped) rest
    constructor
    · rintro ⟨-, allowed, refines⟩
      have goesOn := refines next stepped
      refine ⟨here.mp ⟨allowed, goesOn.same⟩, fun next' stepped' => ?_⟩
      rw [stepped] at stepped'
      cases stepped'
      exact later.mp (goesOn.same.symm ▸ goesOn)
    · rintro ⟨meets, along⟩
      obtain ⟨allowed, same⟩ := here.mpr meets
      refine ⟨rfl, allowed, fun next' stepped' => ?_⟩
      rw [stepped] at stepped'
      cases stepped'
      exact same ▸ later.mpr (along next stepped)

/-- **The wrappers refine a reader-writer lock exactly when every `__pthread_rwlock_tryrdlock` meets a
writer**, in any order of turns. -/
theorem rwlock_refines_iff (o : Options) (mainTh : PthreadT) (shared : Shared)
    (labels : List (Tid × Move)) (r : Recorder)
    (ran : exec (step o) (init o mainTh shared) labels = some r) :
    Refines o (init o mainTh shared) shared.rwlock labels ↔
      Along (step o) ReadsUnderWriter (init o mainTh shared) labels :=
  refines_iff (sound_run (exec_nil _)) ran

/-- The main thread holds the lock `5` for reading. -/
def oneReader : List (Tid × Move) :=
  quick 0 (.createIdle 101) ++ quick 0 (.create 102 3 0) ++ quick 0 (.rdlock 5)

/-- Thread `2` reads too, and then the main thread waits to write; it is the writer when thread `2` has
gone, and `__pthread_rwlock_tryrdlock` then fails as it should. -/
def readersThenWriter : List (Tid × Move) :=
  oneReader ++ quick 2 (.rdlock 5) ++ quick 0 (.rwlockUnlock 5) ++ [(0, .call (.wrlock 5))] ++
    quick 2 (.rwlockUnlock 5) ++ [(0, .resume), (0, .finish)] ++ quick 2 (.tryrdlock 5)

theorem rwlock_refines_iff_readersThenWriter :
    ∃ r, exec (step {}) (init {} 100 {}) readersThenWriter = some r ∧
      r.shared.rwlock 5 = { writer := some 0 } ∧
      Refines {} (init {} 100 {}) ({} : Shared).rwlock readersThenWriter := by
  have found : (exec (step {}) (init {} 100 {}) readersThenWriter).any
      (fun r => decide (r.shared.rwlock 5 = { writer := some 0 })) = true := by decide +kernel
  obtain ⟨r, ran, here⟩ := exec_of_any found
  have along : Along (step {}) ReadsUnderWriter (init {} 100 {}) readersThenWriter := by
    decide +kernel
  exact ⟨r, ran, of_decide_eq_true here,
    (rwlock_refines_iff {} 100 {} readersThenWriter r ran).mpr along⟩

/-- **A second reader is turned away**: the lock has no writer, and `__pthread_rwlock_tryrdlock` returns
`EBUSY`. -/
theorem second_reader_is_refused :
    ∃ r, exec (step {}) (init {} 100 {}) oneReader = some r ∧
      r.shared.rwlock 5 = { readers := [0] } ∧
      (r.turnOf {} 2 (.called (.tryrdlock 5))).2 = .done false { ret := ebusy } ∧
      ¬ Refines {} (init {} 100 {}) ({} : Shared).rwlock (oneReader ++ quick 2 (.tryrdlock 5)) := by
  have found : (exec (step {}) (init {} 100 {}) oneReader).any
      (fun r => decide (r.shared.rwlock 5 = { readers := [0] } ∧
        (r.turnOf {} 2 (.called (.tryrdlock 5))).2 = .done false { ret := ebusy })) = true := by
    decide +kernel
  obtain ⟨r, ran, here⟩ := exec_of_any found
  obtain ⟨readers, refused⟩ := of_decide_eq_true here
  have goesOn : (exec (step {}) (init {} 100 {}) (oneReader ++ quick 2 (.tryrdlock 5))).any
      (fun _ => true) = true := by decide +kernel
  obtain ⟨last, ranOn, -⟩ := exec_of_any goesOn
  refine ⟨r, ran, readers, refused, fun refines => ?_⟩
  have along := (refines_iff (sound_run (exec_nil _)) ranOn).mp refines
  revert along
  decide +kernel

end Recorder

end MinSmt
