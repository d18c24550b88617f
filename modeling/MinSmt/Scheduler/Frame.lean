/-
**What the operations of the scheduler write**, as a rule for relations.

Between two hand-overs an operation relinks the run queues, writes statuses and flags, takes threads out
of `waitq` and puts its own thread there. A property that survives each of these writes survives every
operation.

* `Sched.Frame R` — the relation `R` between a scheduler and a later one is transitive and holds across each
  kind of write, except that a thread enters `waitq`.
* `Frame.putTurn`, `Frame.wait`, `Frame.nextRunnable`, … — then `R` holds across the operation; those
  that put their own thread into `waitq` ask for that write too.
-/

import MinSmt.Scheduler.RRScheduler

namespace MinSmt

namespace Sched

/-- **A relation of a scheduler with a later one that survives what the operations write.** -/
structure Frame (R : Sched → Sched → Prop) : Prop where
  trans : ∀ {s s' s''}, R s s' → R s' s'' → R s s''
  /-- Nothing of the maps, the wait queue, the slots and the lock is written. -/
  core : ∀ {s s' : Sched}, s'.toCore = s.toCore → s'.inSync = s.inSync → R s s'
  /-- A slot is written, but neither what its thread waits for nor its posts. -/
  slot : ∀ {s : Sched} {t : Tid} {w : WaitT}, w.timeout = (s.waits t).timeout →
    w.sem = (s.waits t).sem → w.wakenUp = (s.waits t).wakenUp →
    R s { s with waits := Function.update s.waits t w }
  /-- Threads are taken out of `waitq`. -/
  pass : ∀ {s : Sched} {hit : WaitT → Tid → Bool} {wake : WaitT → WaitT} (all : Bool),
    (∀ w, (wake w).sem = w.sem) → (∀ w, (wake w).wakenUp = false) →
    R s { s with toCore := (s.toCore.pass hit wake all).1 }
  zombify : ∀ {s : Sched} (t : Tid), R s { s with tm := s.tm.zombify t }

/-- A thread with this tid may enter `waitq`. -/
def Enqueues (R : Sched → Sched → Prop) (tid : Tid) : Prop :=
  ∀ (s : Sched) (chan : Option Chan) (timeout : Nat),
    R s { s with toCore := s.toCore.enqueue tid chan timeout }

namespace Frame

variable {R : Sched → Sched → Prop} (frame : Frame R) {o : Options} {s s' : Sched} {tid : Tid}

include frame

theorem refl (s : Sched) : R s s := frame.core rfl rfl

/-- A post in the mode without run queues raises `runnable` only. -/
theorem post (tond : o.enforceTurnType < 0) : R s (s.post o tid) := by
  have slotWritten : (s.waits tid).post o = { s.waits tid with runnable := true } := by
    unfold WaitT.post
    rw [if_neg (by omega), if_neg (by omega), if_pos tond]
  unfold Sched.post
  rw [slotWritten]
  exact frame.slot rfl rfl rfl

/-- A loop over threads. -/
theorem foldl {f : Sched → Tid → Sched} (each : ∀ s t, R s (f s t)) (tids : List Tid) (s : Sched) :
    R s (tids.foldl f s) := by
  induction tids generalizing s with
  | nil => exact frame.refl s
  | cons t tids ih => exact frame.trans (each s t) (ih (f s t))

/-! ### The operations -/

theorem makeRunnable (s : Sched) (t : Tid) : R s (s.makeRunnable o t) := by
  unfold Sched.makeRunnable
  split
  · split <;> exact frame.core rfl rfl
  · exact frame.post (by omega)

theorem signal (chan : Chan) (all : Bool) : R s (s.signal o chan all) := by
  have woken : R s { s with toCore := (s.toCore.signal chan all).1 } :=
    frame.pass all (fun _ => rfl) fun _ => rfl
  exact frame.trans woken (frame.foldl frame.makeRunnable _ _)

theorem fireTimeouts : R s (s.fireTimeouts o) := by
  have woken : R s { s with toCore := s.toCore.fireTimeouts.1 } :=
    frame.pass true (fun _ => rfl) fun _ => rfl
  exact frame.trans woken (frame.foldl frame.makeRunnable _ _)

theorem wakeUpIdleThread : R s (s.wakeUpIdleThread o) := by
  have woken : R s { s with toCore := s.toCore.wakeIdle.1 } :=
    frame.pass false (fun _ => rfl) fun _ => rfl
  refine frame.trans woken (frame.foldl (fun s t => ?_) _ _)
  split
  · exact frame.core rfl rfl
  · exact frame.post (by omega)

theorem bringBack (s : Sched) (t : Tid) : R s (s.bringBack o t) := by
  unfold Sched.bringBack
  split
  · exact frame.refl s
  · have back : R s (if 0 ≤ o.enforceTurnType then s.returnToRunq t else s.post o t) := by
      split
      · exact frame.core rfl rfl
      · exact frame.post (by omega)
    dsimp only
    split
    · exact frame.trans back (frame.core rfl rfl)
    · exact back

theorem checkWakeup (order : List Tid) : R s (s.checkWakeup o order) := by
  unfold Sched.checkWakeup
  split
  · exact frame.trans (frame.foldl frame.bringBack order s) (frame.core rfl rfl)
  · exact frame.refl s

/-- `incTurnCount` counts one turn. -/
theorem incTurnCount (order : List Tid) :
    R { s with toCore := s.toCore.tick } (s.incTurnCount o order) :=
  frame.trans frame.fireTimeouts (frame.checkWakeup order)

theorem checkNonDetBound : R s (s.checkNonDetBound o) := by
  unfold Sched.checkNonDetBound
  split
  · split
    · dsimp only
      split <;> exact frame.core rfl rfl
    · exact frame.core rfl rfl
  · exact frame.refl s

theorem popRunq (popped : s.popRunq = some s') : R s s' := by
  obtain ⟨_, _, rfl⟩ := Option.map_eq_some_iff.mp popped
  exact frame.core rfl rfl

theorem popHpRunq (popped : s.popHpRunq = some s') : R s s' := by
  obtain ⟨_, _, rfl⟩ := Option.map_eq_some_iff.mp popped
  exact frame.core rfl rfl

theorem popOwn (popped : s.popOwn tid = some s') : R s s' := by
  unfold Sched.popOwn at popped
  split at popped
  · obtain ⟨s₁, fromHp, rfl⟩ := Option.map_eq_some_iff.mp popped
    exact frame.trans (frame.popHpRunq fromHp) (frame.slot rfl rfl rfl)
  · exact frame.popRunq popped

theorem setStatus (status : ThdStatus) : R s (s.setStatus tid status) := frame.core rfl rfl

theorem nextPop (popped : s.nextPop o tid = some s') : R s s' := by
  unfold Sched.nextPop at popped
  split at popped
  · exact frame.trans (frame.setStatus _) (frame.popOwn popped)
  · cases popped
    exact frame.refl s

theorem requeue {strategy : Strategy} (requeued : s.requeue tid strategy = some s') : R s s' := by
  cases strategy with
  | currentThread | create =>
    cases requeued
    exact frame.refl s
  | yield =>
    obtain ⟨s₁, popped, inserted⟩ := Option.bind_eq_some_iff.mp requeued
    obtain ⟨_, _, rfl⟩ := Option.map_eq_some_iff.mp inserted
    exact frame.trans (frame.popOwn popped) (frame.core rfl rfl)
  | default | currentRole =>
    obtain ⟨s₁, popped, rfl⟩ := Option.map_eq_some_iff.mp requeued
    exact frame.trans (frame.popOwn popped) (frame.core rfl rfl)

theorem putTurn {strategy : Strategy} (put : s.putTurn o tid strategy = some s') : R s s' := by
  unfold Sched.putTurn at put
  split at put
  · obtain ⟨s₁, requeued, rfl⟩ := Option.map_eq_some_iff.mp put
    exact frame.trans (frame.trans (frame.setStatus _) (frame.requeue requeued)) frame.checkNonDetBound
  · cases put
    exact frame.checkNonDetBound

theorem finish : R s (s.finish o tid) := by
  have signalled : R s (s.signalJoiner o tid) := by
    unfold Sched.signalJoiner
    split
    · exact frame.signal _ _
    · exact frame.refl s
  exact frame.trans (frame.trans signalled (frame.zombify tid)) frame.checkNonDetBound

theorem putTurnAtEnd (put : s.putTurnAtEnd o tid = some s') : R s s' :=
  frame.trans frame.finish (frame.nextPop put)

theorem wait (enqueues : Enqueues R tid) {chan : Option Chan} {timeout : Nat} {order : List Tid}
    (waits : s.wait o tid chan timeout order = some s') :
    R { s with toCore := s.toCore.tick } s' := by
  have counted : R { s with toCore := s.toCore.tick } (s.incTurnCount o order) := frame.incTurnCount order
  refine frame.trans (frame.trans counted ?_) (frame.nextPop waits)
  unfold Sched.enterWaitq
  dsimp only
  split
  · exact frame.trans (enqueues _ chan timeout) (frame.slot rfl rfl rfl)
  · exact enqueues _ chan timeout

theorem enterNonDet : R s (s.enterNonDet o tid) := by
  unfold Sched.enterNonDet
  split <;> exact frame.core rfl rfl

theorem block {order : List Tid} (blocked : s.block o tid order = some s') :
    R { s with toCore := s.toCore.tick } s' := by
  obtain ⟨s₁, popped, rfl⟩ := Option.map_eq_some_iff.mp blocked
  have noted : R { s with toCore := s.toCore.tick }
      { s.enterNonDet o tid with toCore := (s.enterNonDet o tid).toCore.tick } := by
    unfold Sched.enterNonDet
    split <;> exact frame.core rfl rfl
  refine frame.trans (frame.trans (frame.trans noted (frame.incTurnCount order)) (frame.nextPop popped)) ?_
  split <;> exact frame.core rfl rfl

theorem idleEnqueue (enqueues : Enqueues R tid) (waits : s.idleEnqueue o tid = some s') : R s s' :=
  frame.trans (enqueues s (some .idleCond) forever) (frame.nextPop waits)

/-! ### The choice of the next thread -/

/-- What a round of `nextRunnable` leaves. -/
def Picks (R : Sched → Sched → Prop) (s : Sched) : Pick → Prop
  | .again s' _ => R s s'
  | .grant s' _ => R s s'
  | _ => True

theorem noteRemoved : R s (s.noteRemoved o tid) := by
  have noted : R s (s.enterNonDet o tid) := frame.enterNonDet
  exact frame.trans noted (frame.core rfl rfl)

theorem grantHead : R s (s.grantHead tid) := by
  unfold Sched.grantHead
  split
  · exact frame.setStatus _
  · exact frame.refl s

theorem pickRunq (before : R s s') (strategy : Strategy) : Picks R s (s'.pickRunq o strategy) := by
  unfold Sched.pickRunq
  split
  · trivial
  · split
    · split
      · rename_i popped
        exact frame.trans (frame.trans before (frame.popRunq popped)) frame.noteRemoved
      · trivial
    · exact frame.trans before frame.grantHead

theorem pickHp (strategy : Strategy) : Picks R s (s.pickHp o strategy) := by
  unfold Sched.pickHp
  split
  · trivial
  · split
    · split
      · rename_i popped
        exact frame.trans (frame.popHpRunq popped) frame.noteRemoved
      · trivial
    · exact frame.trans frame.grantHead (frame.slot rfl rfl rfl)

theorem pickRole (self : Tid) (strategy : Strategy) : Picks R s (s.pickRole o self strategy) := by
  unfold Sched.pickRole
  split
  · split
    · split
      · rename_i popped
        exact frame.trans (frame.popRunq popped) frame.noteRemoved
      · trivial
    · split
      · trivial
      · split
        · exact frame.grantHead
        · split
          · rename_i popped
            exact frame.trans (frame.popRunq popped) (frame.core rfl rfl)
          · trivial
  · trivial

theorem nextRunnable (idleDone : Bool) (self : Tid) (atThreadEnd : Bool) (strategy : Strategy) :
    Picks R s (s.nextRunnable o idleDone self atThreadEnd strategy) := by
  unfold Sched.nextRunnable
  split
  · exact frame.pickHp _
  · split
    · exact frame.pickRole _ _
    · split
      · split
        · trivial
        · split
          · trivial
          · split
            · trivial
            · exact frame.pickRunq frame.wakeUpIdleThread _
      · split
        · exact frame.pickRunq (frame.signal _ _) _
        · exact frame.pickRunq (frame.refl s) _

end Frame

end Sched

end MinSmt
