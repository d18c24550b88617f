/-
**The wrappers on a smaller scheduler.**

A wrapper sees the scheduler through what `Serializer` offers: the thread maps, the turn count and the wake
reasons, and the operations. So on a scheduler that shows the same and whose operations do the same, it
takes the same turns. No wrapper reads `slock_n_turns` in its turn, so that may be forgotten as well.

* `Serializer.Projects` — the operations commute with `φ`, which forgets a part of the scheduler.
* `turn_project` — then every turn does, and it is given up the same way.
* `Sched.bare` — the scheduler without run queues and posts; `Sched.serializer_projects`: its operations are
  those of `Core.serializer`.
-/

import MinSmt.Runtime.Execution
import MinSmt.Scheduler.Invariant

namespace MinSmt

/-! ### Thread-local variables -/

/-- The variables of a thread that has not locked the scheduler. -/
def Local.unlocked (l : Local) : Local := { l with slockNTurns := 0 }

/-- No operation but `set_slock_next_n` writes it. -/
theorem Local.unlocked_ite (c : Prop) [Decidable c] (l l' : Local) :
    (if c then l else l').unlocked = if c then l.unlocked else l'.unlocked := apply_ite _ c l l'

theorem Directive.apply_unlocked (o : Options) (l : Local) (directive : Directive) :
    (directive.apply o l).unlocked = l.unlocked := by
  cases directive with
  | slockNextN nextNTurns =>
    show (setSlockNextN o l nextNTurns).unlocked = _
    unfold setSlockNextN
    split <;> rfl
  | compensate => rfl

/-- The turn is put the same way but for the strategy. -/
theorem getPutTurnStrategy_unlocked (o : Options) (l : Local) (isCreate : Bool) :
    (getPutTurnStrategy o l.unlocked isCreate).1 = (getPutTurnStrategy o l isCreate).1.unlocked := by
  unfold getPutTurnStrategy
  rw [show l.unlocked.yieldThis = l.yieldThis from rfl]
  split
  · rfl
  · repeat' split
    all_goals rfl

/-- The choice of goals does not depend on it. -/
theorem checkCvWaitCnt_unlocked (o : Options) (sh : Shared) (l : Local) :
    checkCvWaitCnt o sh l.unlocked = (checkCvWaitCnt o sh l).unlocked := by
  obtain ⟨inCSLevel, slockNTurns, cv, sem, role, yieldThis, noCSWholeLocal⟩ := l
  unfold checkCvWaitCnt Local.unlocked
  -- whether the goal of the first part is given up, and then whether the semaphore is
  cases o.wakeamapPlus with
  | true =>
    cases role with
    | none =>
      cases sem with
      | none => rfl
      | some sem => by_cases few : sh.semMap sem < 1 <;> simp [few]
    | some role =>
      by_cases gone : sh.blockedCvCountMap role.value = none <;> cases sem with
      | none => simp [gone]
      | some sem => by_cases few : sh.semMap sem < 1 <;> simp [gone, few]
  | false =>
    cases cv with
    | none =>
      cases sem with
      | none => rfl
      | some sem => by_cases few : sh.semMap sem < 1 <;> simp [few]
    | some cv =>
      by_cases gone : sh.condMap cv < 1 <;> cases sem with
      | none => simp [gone]
      | some sem => by_cases few : sh.semMap sem < 1 <;> simp [gone, few]

theorem afterPutTurn_unlocked (o : Options) (sh : Shared) (l : Local) :
    afterPutTurn o sh l.unlocked = (afterPutTurn o sh l).unlocked := by
  have same : (if 0 < l.slockNTurns then { l with slockNTurns := l.slockNTurns - 1 } else l).unlocked =
      l.unlocked := by
    split <;> rfl
  unfold afterPutTurn
  rw [← checkCvWaitCnt_unlocked, same]
  rfl

/-! ### The turns -/

/-- **A scheduler shows as much without what `φ` forgets**, and its operations do not need that. -/
structure Serializer.Projects {σ τ : Type} (S : Serializer σ) (S' : Serializer τ) (φ : σ → τ) : Prop where
  tm : ∀ s, (S'.core (φ s)).tm = (S.core s).tm
  turnCount : ∀ s, (S'.core (φ s)).turnCount = (S.core s).turnCount
  wakeReason : ∀ s t, ((S'.core (φ s)).waits t).wakeReason = ((S.core s).waits t).wakeReason
  signal : ∀ s chan all, S'.signal (φ s) chan all = φ (S.signal s chan all)
  incTurnCount : ∀ s, S'.incTurnCount (φ s) = φ (S.incTurnCount s)
  create : ∀ s th threadFunc, S'.create (φ s) th threadFunc = φ (S.create s th threadFunc)
  join : ∀ s th, S'.join (φ s) th = φ (S.join s th)

section Turns

variable {σ τ : Type} {S : Serializer σ} {S' : Serializer τ} {φ : σ → τ}

/-- What a thread that has not locked the scheduler reads and writes of the smaller scheduler. -/
def Env.project (φ : σ → τ) (e : Env σ) : Env τ := ⟨φ e.sched, e.shared, e.self.unlocked⟩

/-- What a turn leaves on the smaller scheduler. -/
def projectEnd (φ : σ → τ) (r : Env σ × Finish) : Env τ × Finish := (r.1.project φ, r.2)

variable (projects : S.Projects S' φ) {o : Options} {tid : Tid}

include projects

theorem Env.signal_project (e : Env σ) (chan : Chan) (all : Bool) :
    (e.project φ).signal S' chan all = (e.signal S chan all).project φ := by
  unfold Env.signal Env.project
  rw [projects.signal]

theorem Env.incTurnCount_project (e : Env σ) :
    (e.project φ).incTurnCount S' = (e.incTurnCount S).project φ := by
  unfold Env.incTurnCount Env.project
  rw [projects.incTurnCount]

theorem getTurnCount_project (e : Env σ) :
    (S'.core (e.project φ).sched).getTurnCount = (S.core e.sched).getTurnCount := by
  unfold Core.getTurnCount Env.project
  rw [projects.turnCount]

theorem Env.deadline_project (e : Env σ) (reltime : Option Timespec) :
    (e.project φ).deadline S' o reltime = e.deadline S o reltime := by
  unfold Env.deadline
  rw [getTurnCount_project projects, show (e.project φ).sched = φ e.sched from rfl, projects.tm]

theorem Env.roleOf_project (e : Env σ) (caller : Nat) :
    (e.project φ).roleOf S' tid caller = e.roleOf S tid caller := by
  unfold Env.roleOf
  rw [show (e.project φ).sched = φ e.sched from rfl, projects.tm]

theorem Env.wakeRet_project (e : Env σ) : (e.project φ).wakeRet S' tid = e.wakeRet S tid := by
  unfold Env.wakeRet
  rw [show (e.project φ).sched = φ e.sched from rfl, projects.wakeReason]

omit projects in
theorem Loop.leave_project (e : Env σ) (ret : Result) (loop : Loop) :
    loop.leave o (e.project φ) ret = projectEnd φ (loop.leave o e ret) := by
  cases loop with
  | mutexLock mu =>
    unfold Loop.leave projectEnd Env.project
    dsimp only
    rw [Local.unlocked_ite]
    rfl
  | _ => rfl

omit projects in
theorem Loop.enter_project (e : Env σ) (loop : Loop) :
    loop.enter o tid (e.project φ) = projectEnd φ (loop.enter o tid e) := by
  unfold Loop.enter
  rw [show loop.attempt tid (e.project φ).shared = loop.attempt tid e.shared from rfl]
  cases loop.attempt tid e.shared with
  | some shared => exact Loop.leave_project { e with shared := shared } {} loop
  | none => rfl

theorem pthreadJoin_project (e : Env σ) (th : PthreadT) :
    pthreadJoin S' (e.project φ) th = projectEnd φ (pthreadJoin S e th) := by
  unfold pthreadJoin
  rw [show (e.project φ).sched = φ e.sched from rfl, projects.tm, projects.join]
  split <;> rfl

theorem sleepFor_project (e : Env σ) (ts : Option Timespec) :
    sleepFor S' o (e.project φ) ts = projectEnd φ (sleepFor S o e ts) := by
  unfold sleepFor
  rw [Env.deadline_project projects]
  split
  · cases e.deadline S o ts <;> rfl
  · rfl

theorem condWait_project (e : Env σ) (cv mu caller : Nat) :
    condWait S' o tid (e.project φ) cv mu caller = projectEnd φ (condWait S o tid e cv mu caller) := by
  unfold condWait projectEnd
  dsimp only
  rw [Env.roleOf_project projects, ← Env.incTurnCount_project projects, ← Env.signal_project projects]
  rfl

theorem condTimedWait_project (e : Env σ) (cv mu caller : Nat) (cur : Timespec) (abstime : Option Timespec) :
    condTimedWait S' o tid (e.project φ) cv mu caller cur abstime =
      projectEnd φ (condTimedWait S o tid e cv mu caller cur abstime) := by
  cases abstime with
  | none => exact condWait_project projects e cv mu caller
  | some abstime =>
    unfold condTimedWait projectEnd
    dsimp only
    rw [Env.roleOf_project projects]
    generalize e.roleOf S tid caller = role
    generalize isSh : noteWait o ((e.shared.setMutex mu ((e.shared.mutex mu).unlock tid).1).addCond cv 1) cv role =
      sh
    have same : (Env.incTurnCount S' { e.project φ with shared := sh }).signal S' (.mutex mu) false =
        ((Env.incTurnCount S { e with shared := sh }).signal S (.mutex mu) false).project φ := by
      rw [← Env.signal_project projects, ← Env.incTurnCount_project projects]
      rfl
    rw [show (e.project φ).shared = e.shared from rfl, isSh, same, Env.deadline_project projects]
    split <;> rfl

theorem mutexTimedLock_project (e : Env σ) (mu : Nat) (cur : Timespec) (abstime : Option Timespec) :
    mutexTimedLock S' o tid (e.project φ) mu cur abstime = projectEnd φ (mutexTimedLock S o tid e mu cur abstime) := by
  cases abstime with
  | none => exact Loop.enter_project e _
  | some abstime =>
    unfold mutexTimedLock
    dsimp only
    rw [Env.deadline_project projects]
    split
    · exact Loop.enter_project e _
    · rfl

theorem semTimedWait_project (e : Env σ) (sem : Nat) (cur : Timespec) (abstime : Option Timespec) :
    semTimedWait S' o tid (e.project φ) sem cur abstime = projectEnd φ (semTimedWait S o tid e sem cur abstime) := by
  cases abstime with
  | none => exact Loop.enter_project e _
  | some abstime =>
    unfold semTimedWait
    dsimp only
    rw [Env.deadline_project projects]
    split
    · exact Loop.enter_project e _
    · rfl

theorem mutexUnlock_project (e : Env σ) (mu : Nat) :
    mutexUnlock S' o tid (e.project φ) mu = projectEnd φ (mutexUnlock S o tid e mu) := by
  unfold mutexUnlock projectEnd
  dsimp only
  rw [← Env.signal_project projects]
  unfold Env.project
  dsimp only
  rw [Local.unlocked_ite]
  rfl

theorem rwlockUnlock_project (e : Env σ) (rw : Nat) :
    rwlockUnlock S' tid (e.project φ) rw = projectEnd φ (rwlockUnlock S tid e rw) := by
  unfold rwlockUnlock projectEnd
  dsimp only
  rw [← Env.signal_project projects]
  rfl

omit projects in
/-- The goals of a thread do not depend on `slock_n_turns`. -/
theorem goOnFor_unlocked (sh : Shared) (self : Local) (cv : Nat) (role : Option RolePtr) :
    goOnFor o sh self.unlocked cv role = ((goOnFor o sh self cv role).1, (goOnFor o sh self cv role).2.unlocked) := by
  unfold goOnFor
  split
  · split
    · rfl
    · cases role with
      | none => rfl
      | some role =>
        unfold chooseRole
        dsimp only
        cases sh.blockedCvCountMap role.value with
        | none => rfl
        | some newval =>
          dsimp only
          split
          · rw [show self.unlocked.satisfyingCV = self.satisfyingCV from rfl,
              show self.unlocked.satisfyingRole = self.satisfyingRole from rfl]
            cases sh.blockedCvLineMap self.satisfyingCV with
            | none => rfl
            | some old =>
              dsimp only
              split
              · split <;> rfl
              · rfl
          · rfl
  · rfl

theorem condSignal_project (e : Env σ) (cv : Nat) :
    condSignal S' o (e.project φ) cv = projectEnd φ (condSignal S o e cv) := by
  unfold condSignal
  rw [Env.signal_project projects]
  unfold projectEnd Env.project
  dsimp only
  rw [goOnFor_unlocked]

theorem condBroadcast_project (e : Env σ) (cv : Nat) :
    condBroadcast S' o (e.project φ) cv = projectEnd φ (condBroadcast S o e cv) := by
  unfold condBroadcast
  rw [Env.signal_project projects]
  unfold projectEnd Env.project
  dsimp only
  rw [Local.unlocked_ite]
  rfl

theorem semPost_project (e : Env σ) (sem : Nat) :
    semPost S' o (e.project φ) sem = projectEnd φ (semPost S o e sem) := by
  have signalled := Env.signal_project projects { e with shared := e.shared.setSem sem (e.shared.sem sem + 1) }
    (.sem sem) false
  unfold semPost
  dsimp only
  rw [show Env.signal S' { e.project φ with shared := (e.project φ).shared.setSem sem ((e.project φ).shared.sem sem + 1) }
    (.sem sem) false = _ from signalled]
  unfold projectEnd
  refine Prod.ext ?_ rfl
  unfold Env.project
  dsimp only
  rw [Local.unlocked_ite]
  rfl

theorem barrierWait_project (e : Env σ) (barrier : Nat) :
    barrierWait S' (e.project φ) barrier = projectEnd φ (barrierWait S e barrier) := by
  unfold barrierWait
  rw [Env.incTurnCount_project projects]
  generalize e.incTurnCount S = counted
  dsimp only
  rw [show (counted.project φ).shared = counted.shared from rfl]
  cases counted.shared.barriers barrier with
  | none => rfl
  | some b =>
    dsimp only
    split
    · exact Prod.ext (Env.signal_project projects
        { counted with shared := { counted.shared with
          barriers := Function.update counted.shared.barriers barrier (some { b with narrived := 0 }) } }
        (.barrier barrier) true) rfl
    · rfl

theorem lineupStart_project (e : Env σ) (opaqueType : Nat) :
    lineupStart S' (e.project φ) opaqueType = projectEnd φ (lineupStart S e opaqueType) := by
  unfold lineupStart
  rw [getTurnCount_project projects, show (e.project φ).shared = e.shared from rfl]
  cases e.shared.refcntBars opaqueType with
  | none => rfl
  | some b =>
    dsimp only
    split
    · split
      · exact Prod.ext (Env.signal_project projects (setLineup e opaqueType _) (.lineup opaqueType) true) rfl
      · rfl
    · split <;> rfl

theorem lineupWoken_project (e : Env σ) (opaqueType : Nat) :
    lineupWoken S' (e.project φ) opaqueType = projectEnd φ (lineupWoken S e opaqueType) := by
  unfold lineupWoken
  rw [show (e.project φ).shared = e.shared from rfl]
  cases e.shared.refcntBars opaqueType with
  | none => rfl
  | some b =>
    dsimp only
    split
    · exact Prod.ext (Env.signal_project projects (setLineup e opaqueType _) (.lineup opaqueType) true) rfl
    · rfl

omit projects in
theorem lineupEnd_project (e : Env σ) (opaqueType : Nat) :
    lineupEnd (e.project φ) opaqueType = projectEnd φ (lineupEnd e opaqueType) := by
  unfold lineupEnd
  rw [show (e.project φ).shared = e.shared from rfl]
  cases e.shared.refcntBars opaqueType <;> rfl

omit projects in
theorem semTryWait_project (e : Env σ) (sem : Nat) :
    semTryWait (e.project φ) sem = projectEnd φ (semTryWait e sem) := by
  unfold semTryWait
  rw [show (e.project φ).shared = e.shared from rfl]
  cases e.shared.semTrywait sem <;> rfl

omit projects in
theorem tryOnce_project (e : Env σ) (attempt : Option Shared) :
    tryOnce (e.project φ) attempt = projectEnd φ (tryOnce e attempt) := by
  cases attempt <;> rfl

omit projects in
theorem condTimedOut_project (e : Env σ) (cv : Nat) (role : AddrNRole) :
    condTimedOut o (e.project φ) cv role = (condTimedOut o e cv role).project φ := by
  unfold condTimedOut
  dsimp only
  split
  · unfold Env.project
    dsimp only
    rw [Local.unlocked_ite]
    rfl
  · rfl

theorem condWoken_project (e : Env σ) (timed : Bool) (cv mu : Nat) (role : AddrNRole) :
    condWoken S' o tid (e.project φ) timed cv mu role = projectEnd φ (condWoken S o tid e timed cv mu role) := by
  unfold condWoken
  split
  · dsimp only
    rw [Env.wakeRet_project projects]
    split
    · rw [condTimedOut_project]
      exact Loop.enter_project _ _
    · exact Loop.enter_project _ _
  · exact Loop.enter_project _ _

theorem callTurn_project (e : Env σ) (call : Call) :
    callTurn S' o tid (e.project φ) call = projectEnd φ (callTurn S o tid e call) := by
  cases call with
  | create th threadFunc arg =>
    show ({ e.project φ with sched := S'.create (φ e.sched) th threadFunc },
      Finish.done true { thread := some (S'.core (φ e.sched)).tm.nthread }) = _
    rw [projects.create, projects.tm]
    rfl
  | createIdle th =>
    show ({ e.project φ with
      sched := S'.create (φ e.sched) th idleThreadFunc
      shared := { e.shared with idleCreated := true } }, Finish.done true {}) = _
    rw [projects.create]
    rfl
  | join th => exact pthreadJoin_project projects e th
  | mutexLock mu => exact Loop.enter_project e _
  | mutexTryLock mu => exact tryOnce_project e _
  | mutexTimedLock mu cur abstime => exact mutexTimedLock_project projects e mu cur abstime
  | mutexUnlock mu => exact mutexUnlock_project projects e mu
  | rdlock rw => exact Loop.enter_project e _
  | wrlock rw => exact Loop.enter_project e _
  | tryrdlock rw => exact tryOnce_project e _
  | trywrlock rw => exact tryOnce_project e _
  | rwlockUnlock rw => exact rwlockUnlock_project projects e rw
  | barrierWait barrier => exact barrierWait_project projects e barrier
  | condWait cv mu caller => exact condWait_project projects e cv mu caller
  | condTimedWait cv mu caller cur abstime => exact condTimedWait_project projects e cv mu caller cur abstime
  | condSignal cv => exact condSignal_project projects e cv
  | condBroadcast cv => exact condBroadcast_project projects e cv
  | semWait sem => exact Loop.enter_project e _
  | semTryWait sem => exact semTryWait_project e sem
  | semTimedWait sem cur abstime => exact semTimedWait_project projects e sem cur abstime
  | semPost sem => exact semPost_project projects e sem
  | lineupStart opaqueType => exact lineupStart_project projects e opaqueType
  | lineupEnd opaqueType => exact lineupEnd_project e opaqueType
  | sleep seconds => exact sleepFor_project projects e _
  | usleep usec => exact sleepFor_project projects e _
  | nanosleep req => exact sleepFor_project projects e _
  | _ => rfl

/-- **A turn is the same on the smaller scheduler.** -/
theorem turn_project (e : Env σ) (stage : Stage) :
    turn S' o tid (e.project φ) stage = projectEnd φ (turn S o tid e stage) := by
  cases stage with
  | called call => exact callTurn_project projects e call
  | retry loop =>
    show loop.resume S' o tid (e.project φ) = projectEnd φ (loop.resume S o tid e)
    rw [Loop.resume_eq_enter, Loop.resume_eq_enter, Loop.enter_project]
  | condWoken timed cv mu role => exact condWoken_project projects e timed cv mu role
  | joining th => exact pthreadJoin_project projects e th
  | lineupWoken opaqueType => exact lineupWoken_project projects e opaqueType
  | _ => rfl

end Turns

/-! ### The scheduler without its run queues -/

/-- A slot without what `post` and `nextRunnable` write. -/
def WaitT.bare (w : WaitT) : WaitT := { w with wakenUp := false, sem := 0, wokenUpFromHpQueueFlag := false }

/-- The maps and the wait queue, without the posts. -/
def Core.bare (c : Core) : Core := { c with waits := fun t => (c.waits t).bare }

/-- **The scheduler without its run queues and the posts.** -/
def Sched.bare (s : Sched) : Core := s.toCore.bare

section Passes

variable {c : Core} {hit : WaitT → Tid → Bool} {wake : WaitT → WaitT}

theorem update_bare (waits : Tid → WaitT) (tid : Tid) (w : WaitT) :
    (fun t => (Function.update waits tid w t).bare) = Function.update (fun t => (waits t).bare) tid w.bare := by
  funext t
  by_cases same : t = tid
  · rw [same, Function.update_self, Function.update_self]
  · rw [Function.update_of_ne same, Function.update_of_ne same]

/-- A pass does not need the posts. -/
theorem scan_bare (hits : ∀ w t, hit w.bare t = hit w t) (wakes : ∀ w, wake w.bare = (wake w).bare) (all : Bool)
    (waits : Tid → WaitT) (queue : List Tid) :
    scan hit wake all (fun t => (waits t).bare) queue =
      { scan hit wake all waits queue with
        waits := fun t => ((scan hit wake all waits queue).waits t).bare } := by
  induction queue generalizing waits with
  | nil => rfl
  | cons tid rest ih =>
    unfold scan
    rw [hits, wakes, ← update_bare]
    split
    · split
      · dsimp only
        rw [ih]
      · rfl
    · dsimp only
      rw [ih]

theorem pass_bare (hits : ∀ w t, hit w.bare t = hit w t) (wakes : ∀ w, wake w.bare = (wake w).bare) (all : Bool) :
    (c.bare.pass hit wake all).1 = (c.pass hit wake all).1.bare := by
  unfold Core.pass
  dsimp only
  rw [show c.bare.waits = fun t => (c.waits t).bare from rfl, scan_bare hits wakes]
  rfl

theorem Core.signal_bare (chan : Chan) (all : Bool) : (c.bare.signal chan all).1 = (c.signal chan all).1.bare :=
  @pass_bare c (fun w _ => w.chan == some chan) (fun w => { w.reset with wakeReason := .signal })
    (fun _ _ => rfl) (fun _ => rfl) all

theorem Core.fireTimeouts_bare : c.bare.fireTimeouts.1 = c.fireTimeouts.1.bare :=
  @pass_bare c (fun w _ => decide (w.timeout < c.turnCount))
    (fun w => { w.reset etimedout with wakeReason := .timedout }) (fun _ _ => rfl) (fun _ => rfl) true

theorem Core.wakeIdle_bare : c.bare.wakeIdle.1 = c.wakeIdle.1.bare :=
  @pass_bare c (fun _ tid => tid == idleThreadTid) (fun w => w.reset) (fun _ _ => rfl) (fun _ => rfl) false

theorem Core.incTurnCount_bare : c.bare.incTurnCount = c.incTurnCount.bare :=
  @Core.fireTimeouts_bare c.tick

theorem Core.enqueue_bare (tid : Tid) (chan : Option Chan) (timeout : Nat) :
    c.bare.enqueue tid chan timeout = (c.enqueue tid chan timeout).bare := by
  unfold Core.enqueue Core.bare
  dsimp only
  rw [update_bare]
  rfl

end Passes

namespace Sched

variable {o : Options} {s s' : Sched} {tid : Tid}

theorem foldl_bare {f : Sched → Tid → Sched} (each : ∀ s t, (f s t).bare = s.bare) (tids : List Tid) (s : Sched) :
    (tids.foldl f s).bare = s.bare := by
  induction tids generalizing s with
  | nil => rfl
  | cons t tids ih => exact (ih (f s t)).trans (each s t)

section Queues

variable (nonneg : 0 ≤ o.enforceTurnType)

include nonneg

theorem makeRunnable_bare (s : Sched) (t : Tid) : (s.makeRunnable o t).bare = s.bare := by
  unfold makeRunnable
  rw [if_pos nonneg]
  split <;> rfl

theorem signal_bare (s : Sched) (chan : Chan) (all : Bool) :
    (s.signal o chan all).bare = (s.bare.signal chan all).1 :=
  (foldl_bare (makeRunnable_bare nonneg) _ _).trans (Core.signal_bare chan all).symm

theorem bringBack_bare (s : Sched) (t : Tid) : (s.bringBack o t).bare = s.bare := by
  unfold bringBack
  split
  · rfl
  · dsimp only
    split <;> rfl

theorem checkWakeup_bare (s : Sched) (order : List Tid) : (s.checkWakeup o order).bare = s.bare := by
  unfold checkWakeup
  split
  · exact foldl_bare (bringBack_bare nonneg) order s
  · rfl

/-- **A turn is counted.** -/
theorem incTurnCount_bare (s : Sched) (order : List Tid) : (s.incTurnCount o order).bare = s.bare.incTurnCount :=
  (checkWakeup_bare nonneg _ order).trans
    ((foldl_bare (makeRunnable_bare nonneg) _ _).trans Core.incTurnCount_bare.symm)

theorem create_bare (s : Sched) (th : PthreadT) (threadFunc : ThreadFunc) :
    (s.create o th threadFunc).bare = { s.bare with tm := s.bare.tm.create o.wakeamapPlus th threadFunc } := by
  unfold create
  dsimp only
  rw [if_pos nonneg]
  split <;> rfl

/-- **The operations that a wrapper uses need neither run queues nor posts.** -/
theorem serializer_projects : (serializer o).Projects (Core.serializer o.wakeamapPlus) bare where
  tm _ := rfl
  turnCount _ := rfl
  wakeReason _ _ := rfl
  signal s chan all := (signal_bare nonneg s chan all).symm
  incTurnCount s := (incTurnCount_bare nonneg s []).symm
  create s th threadFunc := (create_bare nonneg s th threadFunc).symm
  join _ _ := rfl

end Queues

/-! ### How the turn is handed over -/

theorem setFlag_bare (s : Sched) (t : Tid) (value : Bool) : (s.setFlag t value).bare = s.bare := by
  show Core.bare { s.toCore with waits := Function.update s.waits t _ } = _
  unfold Core.bare
  dsimp only
  rw [update_bare]
  exact congrArg (fun waits => { s.bare with waits := waits }) (Function.update_eq_self t _)

theorem popOwn_bare (popped : s.popOwn tid = some s') : s'.bare = s.bare := by
  unfold popOwn at popped
  split at popped
  · obtain ⟨s₁, fromHp, rfl⟩ := Option.map_eq_some_iff.mp popped
    obtain ⟨_, _, rfl⟩ := Option.map_eq_some_iff.mp fromHp
    exact setFlag_bare _ tid false
  · obtain ⟨_, _, rfl⟩ := Option.map_eq_some_iff.mp popped
    rfl

theorem nextPop_bare (popped : s.nextPop o tid = some s') : s'.bare = s.bare := by
  unfold nextPop at popped
  split at popped
  · exact (popOwn_bare popped).trans rfl
  · cases popped
    rfl

theorem checkNonDetBound_bare (s : Sched) : (s.checkNonDetBound o).bare = s.bare := by
  unfold checkNonDetBound
  split
  · split
    · dsimp only
      split <;> rfl
    · rfl
  · rfl

theorem requeue_bare {strategy : Strategy} (requeued : s.requeue tid strategy = some s') : s'.bare = s.bare := by
  cases strategy with
  | currentThread | create =>
    cases requeued
    rfl
  | yield =>
    obtain ⟨s₁, popped, inserted⟩ := Option.bind_eq_some_iff.mp requeued
    obtain ⟨_, _, rfl⟩ := Option.map_eq_some_iff.mp inserted
    exact (popOwn_bare popped : s₁.bare = s.bare)
  | default | currentRole =>
    obtain ⟨s₁, popped, rfl⟩ := Option.map_eq_some_iff.mp requeued
    exact (popOwn_bare popped : s₁.bare = s.bare)

theorem putTurn_bare {strategy : Strategy} (put : s.putTurn o tid strategy = some s') : s'.bare = s.bare := by
  unfold putTurn at put
  split at put
  · obtain ⟨s₁, requeued, rfl⟩ := Option.map_eq_some_iff.mp put
    exact (checkNonDetBound_bare s₁).trans (requeue_bare requeued : s₁.bare = (s.setStatus tid .runnable).bare)
  · cases put
    exact checkNonDetBound_bare s

theorem wait_bare (nonneg : 0 ≤ o.enforceTurnType) {chan : Option Chan} {timeout : Nat} {order : List Tid}
    (waits : s.wait o tid chan timeout order = some s') :
    s'.bare = s.bare.incTurnCount.enqueue tid chan timeout := by
  refine (nextPop_bare waits).trans ?_
  rw [enterWaitq_eq nonneg, ← incTurnCount_bare nonneg s order]
  exact (Core.enqueue_bare tid chan timeout).symm

theorem putTurnAtEnd_bare (nonneg : 0 ≤ o.enforceTurnType) (put : s.putTurnAtEnd o tid = some s') :
    s'.bare = s.bare.finish tid := by
  refine (nextPop_bare put).trans ((checkNonDetBound_bare _).trans ?_)
  show { (s.signalJoiner o tid).bare with tm := (s.signalJoiner o tid).bare.tm.zombify tid } = _
  unfold signalJoiner Core.finish
  rw [show s.bare.tm = s.tm from rfl]
  cases s.tm.tToP tid with
  | none => rfl
  | some th =>
    dsimp only
    rw [signal_bare nonneg]

theorem idleEnqueue_bare (waits : s.idleEnqueue o tid = some s') :
    s'.bare = s.bare.enqueue tid (some .idleCond) forever :=
  (nextPop_bare waits).trans (Core.enqueue_bare tid _ _).symm

theorem post_bare (rr : o.RoundRobin) (s : Sched) (t : Tid) : (s.post o t).bare = s.bare := by
  have same : ((s.waits t).post o).bare = (s.waits t).bare := by
    unfold WaitT.post
    rcases rr with isZero | isOne | isTwo
    · rw [isZero]
      rfl
    · rw [isOne]
      rfl
    · rw [isTwo]
      rfl
  show Core.bare { s.toCore with waits := Function.update s.waits t _ } = _
  unfold Core.bare
  dsimp only
  rw [update_bare, same]
  exact congrArg (fun waits => { s.bare with waits := waits }) (Function.update_eq_self t _)

theorem take_bare (rr : o.RoundRobin) (took : s.take o tid = some s') : s'.bare = s.bare := by
  obtain ⟨w, taken, isSched⟩ := Option.bind_eq_some_iff.mp took
  have same : w.bare = (s.waits tid).bare := by
    unfold WaitT.take at taken
    split at taken
    · split at taken
      · cases taken
        rfl
      · cases taken
    · split at taken
      · split at taken
        · cases taken
          rfl
        · cases taken
      · rename_i notOne notTwo
        rcases rr with isZero | isOne | isTwo
        · exact absurd (Or.inr isZero) notTwo
        · exact absurd isOne notOne
        · exact absurd (Or.inl isTwo) notTwo
  rw [if_neg (Int.not_lt.mpr rr.nonneg)] at isSched
  cases isSched
  show Core.bare { s.toCore with waits := Function.update s.waits tid _ } = _
  unfold Core.bare
  dsimp only
  rw [update_bare, same]
  exact congrArg (fun waits => { s.bare with waits := waits }) (Function.update_eq_self tid _)

/-- What a round of `nextRunnable` can do to the wait queue before it picks: nothing, wake the idle thread,
or wake the threads that pause before a non-det region. -/
inductive Roused (o : Options) (c : Core) : Core → Prop
  | nobody : Roused o c c
  | idle (launched : o.launchIdleThread ≠ 0) : Roused o c c.wakeIdle.1
  | nonDet : Roused o c (c.signal .nonDetCV true).1

/-- If the round goes on, this is what it leaves. -/
def Pick.Shows (c : Core) : Pick → Prop
  | .again s _ => s.bare = c
  | .grant s _ => s.bare = c
  | _ => True

theorem noteRemoved_bare (s : Sched) (t : Tid) : (s.noteRemoved o t).bare = s.bare := by
  unfold noteRemoved enterNonDet
  split <;> rfl

theorem grantHead_bare (s : Sched) (t : Tid) : (s.grantHead t).bare = s.bare := by
  unfold grantHead
  split <;> rfl

theorem popRunq_bare (popped : s.popRunq = some s') : s'.bare = s.bare := by
  obtain ⟨_, _, rfl⟩ := Option.map_eq_some_iff.mp popped
  rfl

theorem pickRunq_shows (s : Sched) (strategy : Strategy) : (s.pickRunq o strategy).Shows s.bare := by
  unfold pickRunq
  split
  · trivial
  · split
    · split
      · rename_i popped
        exact (noteRemoved_bare _ _).trans (popRunq_bare popped)
      · trivial
    · exact grantHead_bare s _

theorem pickHp_shows (s : Sched) (strategy : Strategy) : (s.pickHp o strategy).Shows s.bare := by
  unfold pickHp
  split
  · trivial
  · split
    · split
      · rename_i popped
        obtain ⟨_, _, rfl⟩ := Option.map_eq_some_iff.mp popped
        exact noteRemoved_bare _ _
      · trivial
    · exact (setFlag_bare _ _ true).trans (grantHead_bare s _)

theorem pickRole_shows (s : Sched) (self : Tid) (strategy : Strategy) :
    (s.pickRole o self strategy).Shows s.bare := by
  unfold pickRole
  split
  · split
    · split
      · rename_i popped
        exact (noteRemoved_bare _ _).trans (popRunq_bare popped)
      · trivial
    · split
      · trivial
      · split
        · exact grantHead_bare s _
        · split
          · rename_i popped
            exact (popRunq_bare popped : _)
          · trivial
  · trivial

/-- **A round of `nextRunnable`** leaves the wait queue to the idle thread and the non-det regions. -/
theorem nextRunnable_shows (nonneg : 0 ≤ o.enforceTurnType) (s : Sched) (idleDone : Bool) (self : Tid)
    (atThreadEnd : Bool) (strategy : Strategy) :
    ∃ c, Roused o s.bare c ∧ (s.nextRunnable o idleDone self atThreadEnd strategy).Shows c := by
  unfold nextRunnable
  split
  · exact ⟨_, .nobody, pickHp_shows s strategy⟩
  · split
    · exact ⟨_, .nobody, pickRole_shows s self strategy⟩
    · split
      · split
        · exact ⟨_, .nobody, trivial⟩
        · split
          · exact ⟨_, .nobody, trivial⟩
          · rename_i launched
            split
            · exact ⟨_, .nobody, trivial⟩
            · have woken : (s.wakeUpIdleThread o).bare = s.bare.wakeIdle.1 := by
                refine (foldl_bare (fun s t => ?_) _ _).trans Core.wakeIdle_bare.symm
                rw [if_pos nonneg]
                rfl
              exact ⟨_, .idle launched, woken ▸ pickRunq_shows _ .default⟩
      · split
        · exact ⟨_, .nonDet, signal_bare nonneg s .nonDetCV true ▸ pickRunq_shows _ strategy⟩
        · exact ⟨_, .nobody, pickRunq_shows s strategy⟩

end Sched

end MinSmt
