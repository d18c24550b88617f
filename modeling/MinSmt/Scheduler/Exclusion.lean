/-
**One turn at a time**, in both families of modes and whatever happens to the run queues.

Who has the turn is a matter of the posts (or, in the mode without run queues, of the lock `inSync`), not of
the queues: whoever gives the turn away posts one thread, and the rest of the scheduler neither posts nor
counts turns.

* `Sched.Same s s'` — the count of turns, the posts and the lock are what they were. Every operation but
  `incTurnCount`, `post` and the end of `getTurn` is like that.
* `Exclusive o s holder` — nobody but `holder` has the turn or is owed it.
* **`Exclusive.step`** — every step keeps it.
* `step_turnCount` — exactly the actions that call `incTurnCount` count a turn, and only in a turn.
-/

import MinSmt.Library.Run
import MinSmt.Scheduler.Frame
import MinSmt.Scheduler.Invariant

namespace MinSmt

open MinSmt.Library

/-- The modes of the two families of schedulers. -/
def Options.Serializing (o : Options) : Prop := o.RoundRobin ∨ o.enforceTurnType < 0

instance (o : Options) : Decidable o.Serializing := inferInstanceAs (Decidable (_ ∨ _))

/-- What a pass over the wait queue does to a slot. -/
theorem scan_slot {hit : WaitT → Tid → Bool} {wake : WaitT → WaitT} {all : Bool}
    {kept : WaitT → WaitT → Prop} (refl : ∀ w, kept w w)
    (trans : ∀ {u v w}, kept u v → kept v w → kept u w) (wakes : ∀ w, kept w (wake w))
    (waits : Tid → WaitT) (queue : List Tid) (t : Tid) :
    kept (waits t) ((scan hit wake all waits queue).waits t) := by
  have written : ∀ tid, kept (waits t) (Function.update waits tid (wake (waits tid)) t) := by
    intro tid
    by_cases same : t = tid
    · subst same
      rw [Function.update_self]
      exact wakes _
    · rw [Function.update_of_ne same]
      exact refl _
  induction queue generalizing waits with
  | nil => exact refl _
  | cons tid rest ih =>
    cases found : hit (waits tid) tid with
    | false =>
      rw [scan_cons_miss found]
      exact ih waits written
    | true =>
      cases all with
      | false =>
        rw [scan_cons_one found]
        exact written tid
      | true =>
        rw [scan_cons_all found]
        refine trans (written tid) (ih _ fun other => ?_)
        by_cases same : t = other
        · subst same
          rw [Function.update_self]
          exact wakes _
        · rw [Function.update_of_ne same]
          exact refl _

namespace Sched

/-- **The count of turns, the posts and the lock are what they were**, or a post has been withdrawn. -/
structure Same (s s' : Sched) : Prop where
  turnCount : s'.turnCount = s.turnCount
  nthread : s'.tm.nthread = s.tm.nthread
  inSync : s'.inSync = s.inSync
  sem : ∀ t, (s'.waits t).sem = (s.waits t).sem
  wakenUp : ∀ t, (s'.waits t).wakenUp = true → (s.waits t).wakenUp = true

namespace Same

variable {o : Options} {s s' s'' : Sched} {tid : Tid}

theorem of_core (core : s'.toCore = s.toCore) (inSync : s'.inSync = s.inSync) : Same s s' :=
  ⟨by rw [core], by rw [core], inSync, fun t => by rw [core], fun t => by rw [core]; exact id⟩

theorem refl (s : Sched) : Same s s := of_core rfl rfl

theorem trans (first : Same s s') (second : Same s' s'') : Same s s'' :=
  ⟨second.turnCount.trans first.turnCount, second.nthread.trans first.nthread,
    second.inSync.trans first.inSync, fun t => (second.sem t).trans (first.sem t),
    fun t up => first.wakenUp t (second.wakenUp t up)⟩

/-- One slot is written. -/
theorem slot {w : WaitT} (sem : w.sem = (s.waits tid).sem)
    (wakenUp : w.wakenUp = true → (s.waits tid).wakenUp = true) :
    Same s { s with waits := Function.update s.waits tid w } := by
  refine ⟨rfl, rfl, rfl, fun t => ?_, fun t => ?_⟩ <;> by_cases same : t = tid
  · subst same
    simpa using sem
  · simp [Function.update_of_ne same]
  · subst same
    simpa using wakenUp
  · simp [Function.update_of_ne same]

/-- A pass over the wait queue. -/
theorem pass {hit : WaitT → Tid → Bool} {wake : WaitT → WaitT} (all : Bool)
    (sem : ∀ w, (wake w).sem = w.sem) (wakenUp : ∀ w, (wake w).wakenUp = false) :
    Same s { s with toCore := (s.toCore.pass hit wake all).1 } := by
  refine ⟨rfl, rfl, rfl, fun t => ?_, fun t => ?_⟩
  · exact @scan_slot hit wake all (fun w w' => w'.sem = w.sem) (fun _ => rfl)
      (fun first second => second.trans first) sem s.waits s.waitq t
  · exact @scan_slot hit wake all (fun w w' => w'.wakenUp = true → w.wakenUp = true) (fun _ => id)
      (fun first second up => first (second up))
      (fun w up => absurd up (by rw [wakenUp]; nofun)) s.waits s.waitq t

/-- **Every operation but `incTurnCount`, `post` and the end of `getTurn` is like that.** -/
theorem frame : Frame Same where
  trans := trans
  core := of_core
  slot _ sem wakenUp := slot sem fun up => wakenUp ▸ up
  pass := pass
  zombify t := ⟨rfl, TidMap.zombify_nthread _ t, rfl, fun _ => rfl, fun _ => id⟩

theorem enqueues (tid : Tid) : Enqueues Same tid := by
  intro s chan timeout
  obtain ⟨turnCount, nthread, inSync, sem, wakenUp⟩ :=
    @slot s tid { s.waits tid with chan := chan, timeout := timeout } rfl id
  exact ⟨turnCount, nthread, inSync, sem, wakenUp⟩

end Same

end Sched

/-! ### Whose turn it is -/

open Sched Sys

/-- The posts that a thread has not taken; the mode without run queues has none. -/
def Sys.owed (o : Options) (s : Sys) (t : Tid) : Nat :=
  if o.enforceTurnType < 0 then 0 else (s.sched.waits t).posts o

/-- **Nobody but `holder` has the turn or is owed it.** -/
structure Exclusive (o : Options) (s : Sys) (holder : Option Tid) : Prop where
  one : ∀ t, (s.pc t).inTurn.toNat + s.owed o t ≤ if holder = some t then 1 else 0
  locked : o.enforceTurnType < 0 → ∀ t, (s.pc t).inTurn = true → s.sched.inSync = true
  unborn : ∀ t, s.sched.tm.nthread ≤ t → s.pc t = .dead

/-- The actions that call `incTurnCount`. -/
def Action.counts : Action → Bool
  | .incTurnCount _ => true
  | .endThread _ => true
  | .wait _ _ _ => true
  | .sleep _ _ => true
  | .block _ => true
  | .idleCondWait _ => true
  | _ => false

/-- The scheduler with the turn counted, when the action counts one. -/
def Sched.counted (s : Sched) (action : Action) : Sched :=
  if action.counts then { s with toCore := s.toCore.tick } else s

/-- **What a step can do** to the turn: the thread moves, keeps the turn or gives it up; or it creates a
thread; or it takes the turn; or it posts; or it lets go of the lock; or the process ends. -/
inductive Moves (o : Options) (s : Sys) (tid : Tid) (action : Action) (s' : Sys) : Prop
  | crash (here : (s.pc tid).inTurn = true) (crashed : s'.outcome = some .crashed)
      (sameSched : s'.sched = s.sched) (samePc : s'.pc = s.pc)
  | move {pc : Pc} (pcs : s'.pc = Function.update s.pc tid pc) (alive : s.pc tid ≠ .dead)
      (inTurn : pc.inTurn = true → (s.pc tid).inTurn = true)
      (counting : action.counts = true → (s.pc tid).inTurn = true)
      (stays : ∀ order, action = .incTurnCount order → pc = s.pc tid)
      (same : Same (s.sched.counted action) s'.sched)
  | create (here : (s.pc tid).inTurn = true) (plain : action.counts = false)
      (pcs : s'.pc = Function.update s.pc s.sched.tm.nthread .away)
      (nthread : s'.sched.tm.nthread = s.sched.tm.nthread + 1)
      (same : s'.sched.turnCount = s.sched.turnCount ∧ s'.sched.waits = s.sched.waits ∧
        s'.sched.inSync = s.sched.inSync)
  | take {blocking : Bool} (here : s.pc tid = .waiting blocking) (isTake : action = .gotTurn)
      (pcs : s'.pc = Function.update s.pc tid (.turn blocking))
      (taken : s.sched.take o tid = some s'.sched)
  | post {next : Tid} {pc : Pc} (here : (s.pc tid).inTurn = true) (plain : action.counts = false)
      (pcs : s'.pc = Function.update s.pc tid pc) (outTurn : pc.inTurn = false)
      (posted : s'.sched = s.sched.post o next) (isPost : action = .post)
  | release {pc : Pc} {sched : Sched} (tond : o.enforceTurnType < 0) (here : (s.pc tid).inTurn = true)
      (plain : action.counts = false) (pcs : s'.pc = Function.update s.pc tid pc)
      (outTurn : pc.inTurn = false) (same : Same s.sched sched)
      (isSched : s'.sched = { sched with inSync := false })

namespace Moves

variable {o : Options} {s s' : Sys} {tid : Tid} {action : Action}

theorem after_outTurn (after : After) : after.pc.inTurn = false := by
  cases after <;> rfl

/-- The thread stays where it is. -/
theorem stay (alive : s.pc tid ≠ .dead) (pcs : s'.pc = s.pc)
    (counting : action.counts = true → (s.pc tid).inTurn = true)
    (same : Same (s.sched.counted action) s'.sched) : Moves o s tid action s' :=
  .move (by rw [pcs, Function.update_eq_self]) alive id counting (fun _ _ => rfl) same

/-- The thread enters `next`. -/
theorem leave {sched : Option Sched} {atThreadEnd : Bool} {strategy : Strategy} {after : After}
    (here : (s.pc tid).inTurn = true) (notCount : ∀ order, action ≠ .incTurnCount order)
    (same : ∀ sched', sched = some sched' → Same (s.sched.counted action) sched') :
    Moves o s tid action (s.leave tid sched atThreadEnd strategy after) := by
  have alive : s.pc tid ≠ .dead := fun isDead => by rw [isDead] at here; cases here
  cases sched with
  | none => exact .crash here rfl rfl rfl
  | some sched =>
    exact .move rfl alive (fun _ => here) (fun _ => here)
      (fun order isCount => absurd isCount (notCount order)) (same sched rfl)

theorem turnStep (here : s.pc tid = .turn false) (stepped : s.turnStep o tid action = some s') :
    Moves o s tid action s' := by
  have inTurn : (s.pc tid).inTurn = true := by rw [here]; rfl
  have alive : s.pc tid ≠ .dead := by rw [here]; nofun
  cases action with
  | incTurnCount order =>
    obtain ⟨-, rfl⟩ := Sys.turnStep_incTurnCount stepped
    exact stay alive rfl (fun _ => inTurn) (Same.frame.incTurnCount order)
  | signal chan all =>
    cases stepped
    exact stay alive rfl nofun (Same.frame.signal chan all)
  | create th threadFunc =>
    cases stepped
    refine .create inTurn rfl rfl ?_ ?_
    · show (s.sched.create o th threadFunc).tm.nthread = _
      unfold Sched.create
      dsimp only
      split
      · split <;> rfl
      · rfl
    · show (s.sched.create o th threadFunc).turnCount = _ ∧ (s.sched.create o th threadFunc).waits = _ ∧
        (s.sched.create o th threadFunc).inSync = _
      unfold Sched.create
      dsimp only
      split
      · split <;> exact ⟨rfl, rfl, rfl⟩
      · exact ⟨rfl, rfl, rfl⟩
  | changeRole th roleFunc =>
    cases stepped
    refine stay alive rfl nofun ⟨rfl, ?_, rfl, fun _ => rfl, fun _ => id⟩
    exact TidMap.changeRole_nthread _ _ _
  | nonDetWait more =>
    cases stepped
    exact stay alive rfl nofun (Same.of_core rfl rfl)
  | putTurn strategy =>
    cases stepped
    exact leave inTurn nofun fun sched' put => Same.frame.putTurn put
  | endThread order =>
    obtain ⟨-, rfl⟩ := Sys.turnStep_endThread stepped
    exact leave inTurn nofun fun sched' put =>
      (Same.frame.incTurnCount order).trans (Same.frame.putTurnAtEnd put)
  | wait chan timeout order =>
    obtain ⟨-, rfl⟩ := Sys.turnStep_wait stepped
    exact leave inTurn nofun fun sched' waits => Same.frame.wait (Same.enqueues tid) waits
  | sleep turns order =>
    obtain ⟨-, rfl⟩ := Sys.turnStep_sleep stepped
    exact leave inTurn nofun fun sched' waits => Same.frame.wait (Same.enqueues tid) waits
  | block order =>
    obtain ⟨-, rfl⟩ := Sys.turnStep_block stepped
    exact leave inTurn nofun fun sched' blocked => Same.frame.block blocked
  | idleCondWait order =>
    obtain ⟨-, ⟨-, rfl⟩ | ⟨-, rfl⟩⟩ := Sys.turnStep_idleCondWait stepped
    · exact .move rfl alive (fun _ => inTurn) (fun _ => inTurn) nofun (Same.frame.incTurnCount order)
    · exact leave inTurn nofun fun sched' put => (Same.frame.incTurnCount order).trans (Same.frame.putTurn put)
  | _ => cases stepped

theorem tryStep {cur : Option Tid} (here : s.pc tid = .trying cur) :
    Moves o s tid .tryElem (s.tryStep o tid cur) := by
  have inTurn : (s.pc tid).inTurn = true := by rw [here]; rfl
  have alive : s.pc tid ≠ .dead := by rw [here]; nofun
  cases cur with
  | none => exact leave inTurn nofun fun sched' put => Same.frame.putTurn put
  | some cur =>
    simp only [Sys.tryStep]
    split
    · exact leave inTurn nofun fun sched' waits =>
        (Same.frame.setStatus _).trans (Same.frame.idleEnqueue (Same.enqueues tid) waits)
    · exact .move rfl alive (fun _ => inTurn) nofun nofun (Same.refl _)

theorem leaveStep {phase : Phase} {atThreadEnd : Bool} {strategy : Strategy} {after : After}
    (here : s.pc tid = .leaving phase atThreadEnd strategy after)
    (stepped : s.leaveStep o tid phase atThreadEnd strategy after action = some s') :
    Moves o s tid action s' := by
  have inTurn : (s.pc tid).inTurn = true := by rw [here]; rfl
  have alive : s.pc tid ≠ .dead := by rw [here]; nofun
  cases action with
  | checkWakeup order =>
    obtain ⟨-, ⟨-, rfl⟩ | ⟨negative, rfl⟩⟩ := Sys.leaveStep_checkWakeup_cases stepped
    · exact .move rfl alive (fun _ => inTurn) nofun nofun (Same.frame.checkWakeup order)
    · exact .release (by omega) inTurn rfl rfl (after_outTurn after) (Same.frame.checkWakeup order) rfl
  | nextRunnable =>
    obtain ⟨-, rfl⟩ := Sys.leaveStep_nextRunnable stepped
    have picks := @Frame.nextRunnable _ Same.frame o s.sched s.idleDone tid atThreadEnd strategy
    revert picks
    generalize s.sched.nextRunnable o s.idleDone tid atThreadEnd strategy = pick
    intro picks
    cases pick with
    | again sched strategy' => exact .move rfl alive (fun _ => inTurn) nofun nofun picks
    | grant sched next => exact .move rfl alive (fun _ => inTurn) nofun nofun picks
    | invalid =>
      refine .move rfl alive (fun _ => inTurn) nofun nofun (Same.refl _)
    | exit => exact stay alive rfl nofun (Same.refl _)
    | threadExit => exact .move rfl alive (fun _ => inTurn) nofun nofun (Same.refl _)
    | crash => exact .crash inTurn rfl rfl rfl
  | post =>
    obtain ⟨next, rfl, rfl⟩ := Sys.leaveStep_post stepped
    exact .post inTurn rfl rfl (after_outTurn after) rfl rfl
  | _ => cases stepped

theorem awayStep (here : s.pc tid = .away ∨ s.pc tid = .woken)
    (stepped : s.awayStep tid action = some s') : Moves o s tid action s' := by
  have alive : s.pc tid ≠ .dead := by
    rcases here with isAway | isWoken
    · rw [isAway]; nofun
    · rw [isWoken]; nofun
  cases action with
  | getTurn =>
    cases stepped
    exact .move rfl alive nofun nofun nofun (Same.refl _)
  | interProStart =>
    cases stepped
    refine .move rfl alive (fun inTurn => ?_) nofun nofun ?_
    · split at inTurn <;> cases inTurn
    · show Same s.sched (s.sched.interProStart tid).2
      unfold Sched.interProStart
      split <;> exact Same.frame.setStatus _
  | progEnd =>
    simp only [Sys.awayStep] at stepped
    split at stepped
    · cases stepped
      exact stay alive rfl nofun (Same.refl _)
    · cases stepped
  | _ => cases stepped

/-- **Every step is like that.** -/
theorem of_step (stepped : s.step o (tid, action) = some s') : Moves o s tid action s' := by
  replace stepped := Sys.threadStep_of_step stepped
  unfold Sys.threadStep at stepped
  split at stepped
  · rename_i here
    exact awayStep (Or.inl here) stepped
  · rename_i here
    exact awayStep (Or.inr here) stepped
  · rename_i here
    cases stepped
    exact .move rfl (by rw [here]; nofun) nofun nofun nofun (Same.refl _)
  · rename_i here
    cases stepped
    exact .move rfl (by rw [here]; nofun) nofun nofun nofun (Same.of_core rfl rfl)
  · rename_i here
    cases stepped
    exact .move rfl (by rw [here]; nofun) nofun nofun nofun (Same.frame.setStatus _)
  · rename_i here
    cases stepped
    exact .move rfl (by rw [here]; nofun) nofun nofun nofun (Same.of_core rfl rfl)
  · rename_i here
    obtain ⟨sched, taken, rfl⟩ := Option.map_eq_some_iff.mp stepped
    exact .take here rfl rfl taken
  · rename_i here
    exact turnStep here stepped
  · rename_i here
    split at stepped
    · cases stepped
      exact leave (by rw [here]; rfl) nofun fun sched' blocked => Same.frame.block blocked
    · cases stepped
  · rename_i here
    cases stepped
    exact tryStep here
  · rename_i here
    exact leaveStep here stepped
  · cases stepped

end Moves

namespace Exclusive

variable {o : Options} {s s' : Sys} {holder : Option Tid} {tid : Tid}

theorem holder_eq (exclusive : Exclusive o s holder) (inTurn : (s.pc tid).inTurn = true) :
    holder = some tid := by
  have own := exclusive.one tid
  by_contra other
  rw [if_neg other, inTurn] at own
  simp at own

theorem unique (exclusive : Exclusive o s holder) {t u : Tid} (first : (s.pc t).inTurn = true)
    (second : (s.pc u).inTurn = true) : t = u :=
  Option.some.inj ((exclusive.holder_eq first).symm.trans (exclusive.holder_eq second))

theorem counted_frame (sched : Sched) (action : Action) : (sched.counted action).tm = sched.tm ∧
    (sched.counted action).waits = sched.waits ∧ (sched.counted action).inSync = sched.inSync := by
  unfold Sched.counted
  split <;> exact ⟨rfl, rfl, rfl⟩

/-- The tids that are not given out yet, after a thread has moved. -/
theorem unborn_moved (exclusive : Exclusive o s holder) {pc : Pc}
    (pcs : s'.pc = Function.update s.pc tid pc) (alive : s.pc tid ≠ .dead) (t : Tid)
    (new : s.sched.tm.nthread ≤ t) : s'.pc t = .dead := by
  have before := exclusive.unborn t new
  have other : t ≠ tid := fun own => alive (own ▸ before)
  rw [pcs, Function.update_of_ne other]
  exact before

/-- When the holder has left its turn, nobody has one. -/
theorem nobody_moved (exclusive : Exclusive o s holder) {pc : Pc}
    (pcs : s'.pc = Function.update s.pc tid pc) (here : (s.pc tid).inTurn = true)
    (outTurn : pc.inTurn = false) (t : Tid) : (s'.pc t).inTurn = false := by
  rw [pcs]
  by_cases own : t = tid
  · rw [own, Function.update_self, outTurn]
  · rw [Function.update_of_ne own]
    by_contra there
    exact own (exclusive.unique (by simpa using there) here)

theorem alive_of_inTurn (here : (s.pc tid).inTurn = true) : s.pc tid ≠ .dead := fun isDead => by
  rw [isDead] at here
  cases here

/-- **A thread moves**, and has the turn afterwards only if it had it before. -/
theorem keep (exclusive : Exclusive o s holder) {pc : Pc} (pcs : s'.pc = Function.update s.pc tid pc)
    (alive : s.pc tid ≠ .dead) (inTurn : pc.inTurn = true → (s.pc tid).inTurn = true) {action : Action}
    (same : Same (s.sched.counted action) s'.sched) : Exclusive o s' holder := by
  obtain ⟨sameTm, sameWaits, sameSync⟩ := counted_frame s.sched action
  have owed : ∀ t, s'.owed o t ≤ s.owed o t := by
    intro t
    unfold Sys.owed
    split
    · exact Nat.le_refl 0
    · rw [← sameWaits]
      exact posts_le (same.sem t) (same.wakenUp t)
  have turns : ∀ t, (s'.pc t).inTurn = true → (s.pc t).inTurn = true := by
    intro t there
    rw [pcs] at there
    by_cases own : t = tid
    · subst own
      rw [Function.update_self] at there
      exact inTurn there
    · rwa [Function.update_of_ne own] at there
  refine ⟨fun t => ?_, fun tond t there => ?_, fun t new => ?_⟩
  · refine le_trans (Nat.add_le_add ?_ (owed t)) (exclusive.one t)
    cases after : (s'.pc t).inTurn with
    | false => exact Nat.zero_le _
    | true => rw [turns t after]
  · rw [same.inSync, sameSync]
    exact exclusive.locked tond t (turns t there)
  · rw [same.nthread, sameTm] at new
    exact exclusive.unborn_moved pcs alive t new

/-- A new thread is outside the scheduler. -/
theorem create (exclusive : Exclusive o s holder)
    (pcs : s'.pc = Function.update s.pc s.sched.tm.nthread .away)
    (nthread : s'.sched.tm.nthread = s.sched.tm.nthread + 1) (waits : s'.sched.waits = s.sched.waits)
    (inSync : s'.sched.inSync = s.sched.inSync) : Exclusive o s' holder := by
  have turns : ∀ t, (s'.pc t).inTurn = (s.pc t).inTurn := by
    intro t
    rw [pcs]
    by_cases new : t = s.sched.tm.nthread
    · rw [new, Function.update_self, exclusive.unborn _ (Nat.le_refl _)]
      rfl
    · rw [Function.update_of_ne new]
  refine ⟨fun t => ?_, fun tond t there => ?_, fun t new => ?_⟩
  · rw [turns t]
    unfold Sys.owed
    rw [waits]
    exact exclusive.one t
  · rw [inSync]
    exact exclusive.locked tond t (turns t ▸ there)
  · rw [nthread] at new
    rw [pcs, Function.update_of_ne (Nat.ne_of_gt new)]
    exact exclusive.unborn t (Nat.le_of_lt new)

/-- **`getTurn` returns**: the thread had been posted, or the lock was free. -/
theorem take (mode : o.Serializing) (exclusive : Exclusive o s holder) {blocking : Bool}
    (here : s.pc tid = .waiting blocking) (pcs : s'.pc = Function.update s.pc tid (.turn blocking))
    (taken : s.sched.take o tid = some s'.sched) : Exclusive o s' (some tid) := by
  have outTurn : (s.pc tid).inTurn = false := by rw [here]; rfl
  obtain ⟨w, tookPost, isSched⟩ := Option.bind_eq_some_iff.mp taken
  -- nobody else has the turn, and what the thread was owed is taken
  have alone : (∀ t, t ≠ tid → (s.pc t).inTurn.toNat + s.owed o t = 0) ∧ s'.owed o tid = 0 ∧
      (∀ t, t ≠ tid → s'.owed o t = s.owed o t) ∧ s'.sched.tm = s.sched.tm ∧
      (o.enforceTurnType < 0 → s'.sched.inSync = true) := by
    rcases mode with rr | tond
    · have nonneg : ¬ o.enforceTurnType < 0 := Int.not_lt.mpr rr.nonneg
      rw [if_neg nonneg] at isSched
      have posted := (posts_take rr tookPost).1
      have own := exclusive.one tid
      have isOwed : s.owed o tid = (s.sched.waits tid).posts o := if_neg nonneg
      have isHolder : holder = some tid := by
        by_contra other
        rw [if_neg other] at own
        omega
      subst isHolder
      rw [if_pos rfl] at own
      rw [← Option.some.inj isSched]
      refine ⟨fun t other => ?_, ?_, fun t other => ?_, rfl, fun tond => absurd tond nonneg⟩
      · have rest := exclusive.one t
        rw [if_neg fun same => other (Option.some.inj same).symm] at rest
        omega
      · unfold Sys.owed
        rw [if_neg nonneg, ← Option.some.inj isSched]
        simp only [Function.update_self]
        omega
      · unfold Sys.owed
        rw [if_neg nonneg, if_neg nonneg, ← Option.some.inj isSched]
        simp only [Function.update_of_ne other]
    · rw [if_pos tond] at isSched
      split at isSched
      · cases isSched
      · rename_i free
        have owedNone : ∀ (s : Sys) t, s.owed o t = 0 := fun s t => if_pos tond
        rw [← Option.some.inj isSched]
        refine ⟨fun t other => ?_, owedNone _ _, fun t other => ?_, rfl, fun _ => rfl⟩
        · cases there : (s.pc t).inTurn with
          | false => simp [owedNone]
          | true => exact absurd (exclusive.locked tond t there) free
        · rw [owedNone, owedNone]
  obtain ⟨others, own, sameOwed, sameTm, locked⟩ := alone
  refine ⟨fun t => ?_, fun tond t _ => locked tond, fun t new => ?_⟩
  · by_cases isTid : t = tid
    · subst isTid
      rw [own, if_pos rfl]
      exact Bool.toNat_le _
    · have rest := others t isTid
      rw [pcs, Function.update_of_ne isTid, sameOwed t isTid, rest]
      exact Nat.zero_le _
  · rw [sameTm] at new
    exact exclusive.unborn_moved pcs (by rw [here]; nofun) t new

/-- **The holder posts another thread**, which is owed the turn then. -/
theorem post (rr : o.RoundRobin) (exclusive : Exclusive o s holder) {next : Tid} {pc : Pc}
    (here : (s.pc tid).inTurn = true) (pcs : s'.pc = Function.update s.pc tid pc)
    (outTurn : pc.inTurn = false) (posted : s'.sched = s.sched.post o next) :
    Exclusive o s' (some next) := by
  have nonneg : ¬ o.enforceTurnType < 0 := Int.not_lt.mpr rr.nonneg
  have isHolder := exclusive.holder_eq here
  subst isHolder
  have isOwed : ∀ t, s.owed o t = (s.sched.waits t).posts o := fun t => if_neg nonneg
  have nothing : ∀ t, s.owed o t = 0 := by
    intro t
    have own := exclusive.one t
    by_cases isTid : t = tid
    · subst isTid
      rw [here, if_pos rfl] at own
      simp only [Bool.toNat_true] at own
      omega
    · rw [if_neg fun same => isTid (Option.some.inj same).symm] at own
      omega
  have nobody := exclusive.nobody_moved pcs here outTurn
  refine ⟨fun t => ?_, fun tond => absurd tond nonneg, fun t new => ?_⟩
  · rw [nobody t]
    unfold Sys.owed
    rw [if_neg nonneg, posted]
    by_cases isNext : t = next
    · subst isNext
      have once := posts_post rr (s.sched.waits t) ((isOwed t).symm.trans (nothing t))
      simp [Sched.post, once]
    · have none := (isOwed t).symm.trans (nothing t)
      simp [Sched.post, Function.update_of_ne isNext, none]
  · rw [posted] at new
    exact exclusive.unborn_moved pcs (alive_of_inTurn here) t new

/-- In the mode without run queues a post gives nothing away. -/
theorem post_tond (tond : o.enforceTurnType < 0) (exclusive : Exclusive o s holder) {next : Tid} {pc : Pc}
    (here : (s.pc tid).inTurn = true) (pcs : s'.pc = Function.update s.pc tid pc)
    (outTurn : pc.inTurn = false) (posted : s'.sched = s.sched.post o next) :
    Exclusive o s' holder := by
  have same : Same (s.sched.counted .post) s'.sched := by
    rw [posted]
    exact Same.frame.post tond
  refine exclusive.keep pcs (alive_of_inTurn here) (fun inTurn => ?_) same
  rw [outTurn] at inTurn
  cases inTurn

/-- The holder lets go of the lock. -/
theorem release (exclusive : Exclusive o s holder) {pc : Pc} {sched : Sched}
    (tond : o.enforceTurnType < 0) (here : (s.pc tid).inTurn = true)
    (pcs : s'.pc = Function.update s.pc tid pc) (outTurn : pc.inTurn = false)
    (same : Same s.sched sched) (isSched : s'.sched = { sched with inSync := false }) :
    Exclusive o s' none := by
  have nobody := exclusive.nobody_moved pcs here outTurn
  refine ⟨fun t => ?_, fun _ t there => ?_, fun t new => ?_⟩
  · rw [nobody t]
    unfold Sys.owed
    rw [if_pos tond]
    exact Nat.zero_le _
  · rw [nobody t] at there
    cases there
  · rw [isSched] at new
    exact exclusive.unborn_moved pcs (alive_of_inTurn here) t (same.nthread ▸ new)

/-- Where the hand-over of turns has ended does not matter. -/
theorem congr (exclusive : Exclusive o s holder) (sameSched : s'.sched = s.sched) (samePc : s'.pc = s.pc) :
    Exclusive o s' holder := by
  refine ⟨?_, ?_, ?_⟩
  · unfold Sys.owed
    rw [sameSched, samePc]
    exact exclusive.one
  · rw [sameSched, samePc]
    exact exclusive.locked
  · rw [sameSched, samePc]
    exact exclusive.unborn

/-- **Every step keeps it.** -/
theorem step (mode : o.Serializing) (exclusive : Exclusive o s holder) {action : Action}
    (moves : Moves o s tid action s') : ∃ holder', Exclusive o s' holder' := by
  cases moves with
  | crash here crashed sameSched samePc => exact ⟨holder, exclusive.congr sameSched samePc⟩
  | move pcs alive inTurn counting stays same => exact ⟨holder, exclusive.keep pcs alive inTurn same⟩
  | create here plain pcs nthread same =>
    exact ⟨holder, exclusive.create pcs nthread same.2.1 same.2.2⟩
  | take here isTake pcs taken => exact ⟨some tid, exclusive.take mode here pcs taken⟩
  | post here plain pcs outTurn posted =>
    rcases mode with rr | tond
    · exact ⟨_, exclusive.post rr here pcs outTurn posted⟩
    · exact ⟨holder, exclusive.post_tond tond here pcs outTurn posted⟩
  | release tond here plain pcs outTurn same isSched =>
    exact ⟨none, exclusive.release tond here pcs outTurn same isSched⟩

/-- The main thread is owed the first turn. -/
theorem initial (mode : o.Serializing) (mainTh : PthreadT) :
    Exclusive o (Sys.init o mainTh) (some mainThreadTid) := by
  have nobody : ∀ t, ((Sys.init o mainTh).pc t).inTurn = false := by
    intro t
    unfold Sys.init
    by_cases isMain : t = mainThreadTid
    · simp [isMain, Pc.inTurn]
    · simp [Function.update_of_ne isMain, Pc.inTurn]
  have fresh : ({} : WaitT).posts o = 0 := by
    unfold WaitT.posts
    split <;> rfl
  refine ⟨fun t => ?_, fun _ t there => ?_, fun t new => ?_⟩
  · rw [nobody t]
    unfold Sys.owed
    split
    · exact Nat.zero_le _
    · rename_i nonneg
      have rr := mode.resolve_right nonneg
      by_cases isMain : t = mainThreadTid
      · subst isMain
        simp [Sys.init, Sched.init, Sched.setStatus, Sched.post, Sched.pushRunq,
          posts_post rr {} fresh]
      · simp [Sys.init, Sched.init, Sched.setStatus, Sched.post, Sched.pushRunq,
          Function.update_of_ne isMain, fresh]
  · rw [nobody t] at there
    cases there
  · have later : 1 ≤ t := new
    have other : t ≠ mainThreadTid := by
      unfold mainThreadTid
      omega
    show Function.update (fun _ => Pc.dead) mainThreadTid .away t = .dead
    exact Function.update_of_ne other _ _

/-- It holds after every run. -/
theorem run (mode : o.Serializing) {mainTh : PthreadT} {labels : List (Tid × Action)}
    (ran : exec (Sys.step o) (Sys.init o mainTh) labels = some s) : ∃ holder, Exclusive o s holder := by
  refine exec_invariant (fun s => ∃ holder, Exclusive o s holder)
    (fun s label s' holds _ stepped => ?_) ⟨_, initial mode mainTh⟩
    (along_of_labels (fun _ _ => trivial) _) ran
  obtain ⟨holder, exclusive⟩ := holds
  exact exclusive.step mode (Moves.of_step stepped)

/-- **A thread that neither has the turn nor is owed it** changes nothing of that, and moves only itself. -/
theorem aside (rr : o.RoundRobin) (exclusive : Exclusive o s holder) (other : holder ≠ some tid)
    {action : Action} (moves : Moves o s tid action s') :
    Exclusive o s' holder ∧ action.counts = false ∧ ∀ t, t ≠ tid → s'.pc t = s.pc t := by
  have outTurn : ¬ (s.pc tid).inTurn = true := fun here => other (exclusive.holder_eq here)
  cases moves with
  | move pcs alive inTurn counting stays same =>
    refine ⟨exclusive.keep pcs alive inTurn same, ?_, fun t isOther => ?_⟩
    · exact Bool.eq_false_iff.mpr fun counts => outTurn (counting counts)
    · rw [pcs, Function.update_of_ne isOther]
  | take here isTake pcs taken =>
    obtain ⟨w, tookPost, -⟩ := Option.bind_eq_some_iff.mp taken
    have posted := (posts_take rr tookPost).1
    have own := exclusive.one tid
    have isOwed : s.owed o tid = (s.sched.waits tid).posts o := if_neg (Int.not_lt.mpr rr.nonneg)
    rw [if_neg other] at own
    omega
  | crash here => exact absurd here outTurn
  | create here => exact absurd here outTurn
  | post here => exact absurd here outTurn
  | release _ here => exact absurd here outTurn

/-- **Until somebody is posted, the turn stays where it is.** -/
theorem kept (rr : o.RoundRobin) (exclusive : Exclusive o s holder) {action : Action}
    (notPost : action ≠ .post) (stepped : s.step o (tid, action) = some s') : Exclusive o s' holder := by
  have moves := Moves.of_step stepped
  by_cases mine : holder = some tid
  · cases moves with
    | crash here crashed sameSched samePc => exact exclusive.congr sameSched samePc
    | move pcs alive inTurn counting stays same => exact exclusive.keep pcs alive inTurn same
    | create here plain pcs nthread same => exact exclusive.create pcs nthread same.2.1 same.2.2
    | take here isTake pcs taken =>
      rw [mine]
      exact exclusive.take (Or.inl rr) here pcs taken
    | post here plain pcs outTurn posted isPost => exact absurd isPost notPost
    | release tond here => exact absurd tond (Int.not_lt.mpr rr.nonneg)
  · exact (exclusive.aside rr mine moves).1

end Exclusive

/-! ### The count of turns -/

namespace Moves

variable {o : Options} {s s' : Sys} {tid : Tid} {action : Action}

/-- **A step counts a turn exactly when it calls `incTurnCount`**, unless the process crashes. -/
theorem turnCount_eq (moves : Moves o s tid action s') :
    s'.sched.turnCount = (s.sched.counted action).turnCount ∨ s'.outcome = some .crashed := by
  have plainly : action.counts = false → s.sched.counted action = s.sched := fun plain => by
    unfold Sched.counted
    rw [plain, if_neg Bool.false_ne_true]
  cases moves with
  | crash here crashed sameSched samePc => exact Or.inr crashed
  | move pcs alive inTurn counting stays same => exact Or.inl same.turnCount
  | create here plain pcs nthread same =>
    rw [plainly plain]
    exact Or.inl same.1
  | take here isTake pcs taken =>
    rw [plainly (by rw [isTake]; rfl)]
    obtain ⟨w, -, isSched⟩ := Option.bind_eq_some_iff.mp taken
    split at isSched
    · split at isSched
      · cases isSched
      · rw [← Option.some.inj isSched]
        exact Or.inl rfl
    · rw [← Option.some.inj isSched]
      exact Or.inl rfl
  | post here plain pcs outTurn posted =>
    rw [plainly plain, posted]
    exact Or.inl rfl
  | release tond here plain pcs outTurn same isSched =>
    rw [plainly plain, isSched]
    exact Or.inl same.turnCount

/-- Only the turn holder counts. -/
theorem inTurn_of_counts (moves : Moves o s tid action s') (counts : action.counts = true) :
    (s.pc tid).inTurn = true := by
  cases moves with
  | crash here crashed sameSched samePc => exact here
  | move pcs alive inTurn counting stays same => exact counting counts
  | take here isTake pcs taken =>
    rw [isTake] at counts
    cases counts
  | create here plain pcs nthread same => exact here
  | post here plain pcs outTurn posted => exact here
  | release tond here plain pcs outTurn same isSched => exact here

/-- The other threads keep the turn, or its absence. -/
theorem others {holder : Option Tid} (exclusive : Exclusive o s holder)
    (moves : Moves o s tid action s') {t : Tid} (other : t ≠ tid) :
    (s'.pc t).inTurn = (s.pc t).inTurn := by
  cases moves with
  | crash here crashed sameSched samePc => rw [samePc]
  | create here plain pcs nthread same =>
    rw [pcs]
    by_cases new : t = s.sched.tm.nthread
    · rw [new, Function.update_self, exclusive.unborn _ (Nat.le_refl _)]
      rfl
    · rw [Function.update_of_ne new]
  | move pcs | take _ _ pcs | post _ _ pcs | release _ _ _ pcs => rw [pcs, Function.update_of_ne other]

/-- The other threads that there are stay where they are. -/
theorem pc_of_ne (moves : Moves o s tid action s') {t : Tid} (other : t ≠ tid) (old : s.sched.tm.nthread ≠ t) :
    s'.pc t = s.pc t := by
  cases moves with
  | crash _ _ _ samePc => rw [samePc]
  | create _ _ pcs => rw [pcs, Function.update_of_ne old.symm]
  | move pcs | take _ _ pcs | post _ _ pcs | release _ _ _ pcs => rw [pcs, Function.update_of_ne other]

/-- After `incTurnCount` the thread still has the turn. -/
theorem stays_inTurn {order : List Tid} (moves : Moves o s tid (.incTurnCount order) s') :
    (s'.pc tid).inTurn = true := by
  have here := moves.inTurn_of_counts rfl
  cases moves with
  | crash _ _ _ samePc => rwa [samePc]
  | move pcs _ _ _ stays _ =>
    rw [pcs, Function.update_self, stays order rfl]
    exact here
  | create _ plain => cases plain
  | take _ isTake => cases isTake
  | post _ plain => cases plain
  | release _ _ plain => cases plain

end Moves

end MinSmt
