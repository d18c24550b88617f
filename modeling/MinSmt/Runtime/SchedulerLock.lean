/-
**Locking the scheduler on the current thread** (`set_slock_next_n`, `getPutTurnStrategy`,
`SCHED_TIMER_END`).

`Locking` is the process around one scheduler with the variables of each thread that decide the strategy
of its `putTurn`. The wrappers are cut where the scheduler is: a thread gets the turn, runs the body of
its operation (for any state of the shared maps), calls `putTurn` with the strategy that its variables
give, and after `next` executes what follows `putTurn` in `SCHED_TIMER_END`.

* `turn_slock` — no operation but `pthread_create` and `sched_yield` writes `slock_n_turns` and
  `yield_this`.
* `Lock` — from the first turn on: the thread has the turn, and `slock_n_turns` is `n - 1` less the
  operations that have ended; `Lock.step` — every step keeps it.
* **`scheduler_lock`** — `CURRENT_THREAD` posts the caller and keeps the order of the queues; the next
  `n` operations after `set_slock_next_n` occupy consecutive turns.
* `stale_flag_posts_another` — with a stale flag another thread is posted.
-/

import MinSmt.Scheduler.CurrentThread
import MinSmt.Scheduler.Fairness
import MinSmt.Runtime.Frames
import MinSmt.Runtime.Recorder

namespace MinSmt

open MinSmt.Library Sched Sys

/-! ### The process -/

/-- A process with the thread-local variables of its wrappers. -/
structure Locking where
  sys : Sys
  locals : Tid → Local := fun _ => {}
  /-- The thread is in `SCHED_TIMER_END`, after its call of `putTurn`. -/
  ending : Tid → Bool := fun _ => false

/-- What a thread can do. -/
inductive LockMove
  /-- A step of a method of the scheduler. -/
  | act (action : Action)
  /-- The writes of a wrapper to its thread's variables, at a stage and with any shared state. -/
  | body (stage : Stage) (core : Core) (shared : Shared)
  /-- `putTurn(false, getPutTurnStrategy(..))`; the flag is for `pthread_create`. -/
  | putTurn (isCreate : Bool)
  /-- What follows in `SCHED_TIMER_END`. -/
  | finish (shared : Shared)
  /-- `set_slock_next_n`. -/
  | setSlockNextN (nextNTurns : Int)

/-- The call of `incTurnCount` in `SCHED_TIMER_END`. -/
def Action.isCount : Action → Bool
  | .incTurnCount _ => true
  | _ => false

namespace Locking

variable (o : Options) (k : Locking) (tid : Tid)

/-- Write the variables of a thread. -/
def setLocal (l : Local) : Locking := { k with locals := Function.update k.locals tid l }

/-- The thread may run this method: after `putTurn` it is inside `next`, and after `yield_this = true`
it only counts the turn. -/
def mayAct (action : Action) : Bool :=
  (!k.ending tid || (k.sys.pc tid).inNext) &&
    (!(k.locals tid).yieldThis || action.isCount)

/-- One step of one thread. -/
def step (label : Tid × LockMove) : Option Locking :=
  let tid := label.1
  match label.2 with
  | .act action =>
    if k.mayAct tid action = true then
      (k.sys.step o (tid, action)).map fun sys => { k with sys := sys }
    else none
  | .body stage core shared =>
    if k.sys.pc tid = .turn false ∧ (k.locals tid).yieldThis = false then
      some (k.setLocal tid (turn (Core.serializer o.wakeamapPlus) o tid ⟨core, shared, k.locals tid⟩ stage).1.self)
    else none
  | .putTurn isCreate =>
    let r := getPutTurnStrategy o (k.locals tid) isCreate
    if k.sys.pc tid = .turn false then
      (k.sys.step o (tid, .putTurn r.2)).map fun sys =>
        { k.setLocal tid r.1 with sys := sys, ending := Function.update k.ending tid true }
    else none
  | .finish shared =>
    if k.ending tid = true ∧ (k.sys.pc tid).inNext = false then
      some { k.setLocal tid (afterPutTurn o shared (k.locals tid)) with
        ending := Function.update k.ending tid false }
    else none
  | .setSlockNextN nextNTurns =>
    if (k.sys.pc tid = .away ∨ k.sys.pc tid = .woken) ∧ k.ending tid = false then
      some (k.setLocal tid (setSlockNextN o (k.locals tid) nextNTurns))
    else none

/-- The process after the scheduler has been made. -/
def init (mainTh : PthreadT) : Locking := { sys := Sys.init o mainTh }

/-- The steps of the scheduler are safe. -/
def Safe (label : Tid × LockMove) : Prop :=
  match label.2 with
  | .act action => QueueSafe o k.sys (label.1, action)
  | _ => True

instance (label : Tid × LockMove) : Decidable (k.Safe o label) :=
  match label with
  | (_, .act _) => inferInstanceAs (Decidable (QueueSafe o _ _))
  | (_, .body _ _ _) => inferInstanceAs (Decidable True)
  | (_, .putTurn _) => inferInstanceAs (Decidable True)
  | (_, .finish _) => inferInstanceAs (Decidable True)
  | (_, .setSlockNextN _) => inferInstanceAs (Decidable True)

end Locking

/-- The methods that an operation calls which does not wait: `getTurn`, the calls with the turn, and
`next`. -/
def Action.ordinary : Action → Bool
  | .getTurn => true
  | .gotTurn => true
  | .incTurnCount _ => true
  | .signal _ _ => true
  | .changeRole _ _ => true
  | .checkWakeup _ => true
  | .nextRunnable => true
  | .post => true
  | _ => false

/-- A step of an operation that goes through `SCHED_TIMER_START` and `SCHED_TIMER_END`, does not wait,
and is neither `pthread_create` nor `sched_yield`. -/
def LockMove.ordinary : LockMove → Bool
  | .act action => action.ordinary
  | .body stage _ _ => decide (stage ≠ .called .schedYield)
  | .putTurn isCreate => !isCreate
  | .finish _ => true
  | .setSlockNextN _ => false

/-- The `putTurn` of `SCHED_TIMER_END`. -/
def LockMove.isEnd : LockMove → Bool
  | .putTurn _ => true
  | _ => false

/-- How many operations of the thread have come to their `putTurn`. -/
def ends (tid : Tid) (labels : List (Tid × LockMove)) : Nat :=
  labels.countP fun label => decide (label.1 = tid) && label.2.isEnd

theorem ends_cons (tid : Tid) (label : Tid × LockMove) (labels : List (Tid × LockMove)) :
    ends tid (label :: labels) = ends tid [label] + ends tid labels := by
  unfold ends
  rw [← List.countP_append, List.singleton_append]

/-! ### The counter -/

/-- **Only `sched_yield` writes `yield_this`, and no turn writes `slock_n_turns`.** -/
theorem turn_slock {σ : Type} {S : Serializer σ} {o : Options} {tid : Tid} {e : Env σ} {stage : Stage}
    (notYield : stage ≠ .called .schedYield) :
    (turn S o tid e stage).1.self.slockNTurns = e.self.slockNTurns ∧
      (turn S o tid e stage).1.self.yieldThis = e.self.yieldThis := by
  refine ⟨?_, ?_⟩
  · exact turn_field Local.slockNTurns (fun _ _ _ => rfl) (fun _ _ _ _ => rfl) fun _ _ => rfl
  · exact turn_field Local.yieldThis (fun _ _ _ => rfl) (fun _ _ _ _ => rfl) fun yields => absurd yields notYield

theorem checkCvWaitCnt_slock (o : Options) (shared : Shared) (l : Local) :
    (checkCvWaitCnt o shared l).slockNTurns = l.slockNTurns ∧
      (checkCvWaitCnt o shared l).yieldThis = l.yieldThis := by
  unfold checkCvWaitCnt
  dsimp only
  repeat' split
  all_goals exact ⟨rfl, rfl⟩

/-- The end of an operation counts one turn. -/
theorem afterPutTurn_slock {o : Options} {shared : Shared} {l : Local} (locked : 0 < l.slockNTurns) :
    (afterPutTurn o shared l).slockNTurns = l.slockNTurns - 1 ∧
      (afterPutTurn o shared l).yieldThis = l.yieldThis := by
  unfold afterPutTurn
  rw [if_pos locked]
  exact checkCvWaitCnt_slock o shared _

/-- While turns are left, an operation keeps the turn. -/
theorem strategy_of_slock {o : Options} {l : Local} (locked : 0 < l.slockNTurns) (notYield : l.yieldThis = false) :
    getPutTurnStrategy o l false = (l, .currentThread) := by
  unfold getPutTurnStrategy
  rw [notYield, if_neg Bool.false_ne_true, if_neg fun create => Bool.false_ne_true create.2]
  exact if_pos (Or.inr (Or.inl locked))

/-! ### Every run -/

section Runs

variable {o : Options} {k k' : Locking} {tid : Tid} {runq hp : List Tid} {n : Int} {m : Nat}

/-- What holds in every state: the invariant of the scheduler, and `yield_this` is set in the turn of
`sched_yield` only. -/
structure Locking.Sound (o : Options) (k : Locking) : Prop where
  inv : Inv.Holds o ⟨False, False⟩ k.sys
  yields : ∀ t, (k.locals t).yieldThis = true → k.sys.pc t = .turn false

theorem getPutTurnStrategy_yieldThis (o : Options) (l : Local) (isCreate : Bool) :
    (getPutTurnStrategy o l isCreate).1.yieldThis = false := by
  unfold getPutTurnStrategy
  split
  · rfl
  · rename_i notYield
    repeat' split
    all_goals exact Bool.eq_false_iff.mpr notYield

theorem afterPutTurn_yieldThis (o : Options) (shared : Shared) (l : Local) :
    (afterPutTurn o shared l).yieldThis = l.yieldThis := by
  unfold afterPutTurn
  rw [(checkCvWaitCnt_slock o shared _).2]
  split <;> rfl

namespace Locking

@[simp] theorem setLocal_self (l : Local) : (k.setLocal tid l).locals tid = l := Function.update_self _ _ _

theorem setLocal_of_ne {t : Tid} (other : t ≠ tid) (l : Local) : (k.setLocal tid l).locals t = k.locals t :=
  Function.update_of_ne other _ _

end Locking

/-- A thread in its turn is not moved by the others. -/
theorem turn_stays (rr : o.RoundRobin) (holds : Inv.Holds o ⟨False, False⟩ k.sys) {t : Tid}
    (here : k.sys.pc t = .turn false) (other : t ≠ tid) {action : Action} {sys : Sys}
    (stepped : k.sys.step o (tid, action) = some sys) : sys.pc t = .turn false := by
  obtain ⟨_, _, _, inv⟩ := holds
  have inTurn : (k.sys.pc t).inTurn = true := by
    rw [here]
    rfl
  rw [(step_aside rr inv inTurn (Ne.symm other) stepped).2 t other]
  exact here

theorem Locking.Sound.step (rr : o.RoundRobin) (sound : k.Sound o) {label : Tid × LockMove} (safe : k.Safe o label)
    (stepped : k.step o label = some k') : k'.Sound o := by
  obtain ⟨tid, move⟩ := label
  obtain ⟨runq, hp, holder, inv⟩ := id sound.inv
  cases move with
  | act action =>
    simp only [Locking.step] at stepped
    split at stepped
    · rename_i may
      obtain ⟨sys, moved, rfl⟩ := Option.map_eq_some_iff.mp stepped
      refine ⟨inv.step rr ⟨safe, False.elim, False.elim⟩ moved, fun t yields => ?_⟩
      have before := sound.yields t yields
      by_cases own : t = tid
      · subst own
        have counting : action.isCount = true := by
          have allowed := (Bool.and_eq_true_iff.mp may).2
          rw [show (k.locals t).yieldThis = true from yields] at allowed
          exact allowed
        cases action with
        | incTurnCount order =>
          have turned := Sys.threadStep_of_step moved
          simp only [Sys.threadStep, before] at turned
          obtain ⟨-, rfl⟩ := Sys.turnStep_incTurnCount turned
          exact before
        | _ => cases counting
      · exact turn_stays rr sound.inv before own moved
    · cases stepped
  | body stage core shared =>
    simp only [Locking.step] at stepped
    split at stepped
    · rename_i allowed
      cases stepped
      refine ⟨sound.inv, fun t yields => ?_⟩
      by_cases own : t = tid
      · rw [own]
        exact allowed.1
      · rw [Locking.setLocal_of_ne own] at yields
        exact sound.yields t yields
    · cases stepped
  | putTurn isCreate =>
    simp only [Locking.step] at stepped
    split at stepped
    · obtain ⟨sys, moved, rfl⟩ := Option.map_eq_some_iff.mp stepped
      have putSafe : QueueSafe o k.sys (tid, .putTurn (getPutTurnStrategy o (k.locals tid) isCreate).2) := trivial
      refine ⟨inv.step rr ⟨putSafe, False.elim, False.elim⟩ moved, fun t yields => ?_⟩
      by_cases own : t = tid
      · subst own
        have cleared := getPutTurnStrategy_yieldThis o (k.locals t) isCreate
        rw [show ((k.setLocal t _).locals t).yieldThis = _ from congrArg _ (Locking.setLocal_self _)] at yields
        rw [cleared] at yields
        cases yields
      · have same := Locking.setLocal_of_ne (k := k) own (getPutTurnStrategy o (k.locals tid) isCreate).1
        exact turn_stays rr sound.inv (sound.yields t (same ▸ yields)) own moved
    · cases stepped
  | finish shared =>
    simp only [Locking.step] at stepped
    split at stepped
    · cases stepped
      refine ⟨sound.inv, fun t yields => sound.yields t ?_⟩
      by_cases own : t = tid
      · subst own
        rw [← afterPutTurn_yieldThis o shared]
        exact (congrArg Local.yieldThis (Locking.setLocal_self _)).symm.trans yields
      · exact (congrArg Local.yieldThis (Locking.setLocal_of_ne own _)).symm.trans yields
    · cases stepped
  | setSlockNextN nextNTurns =>
    simp only [Locking.step] at stepped
    split at stepped
    · cases stepped
      refine ⟨sound.inv, fun t yields => sound.yields t ?_⟩
      by_cases own : t = tid
      · subst own
        rw [Locking.setLocal_self] at yields
        unfold MinSmt.setSlockNextN at yields
        split at yields <;> exact yields
      · rwa [Locking.setLocal_of_ne own] at yields
    · cases stepped

theorem Locking.Sound.run (rr : o.RoundRobin) {mainTh : PthreadT} {labels : List (Tid × LockMove)}
    (safe : Along (Locking.step o) (Locking.Safe o) (Locking.init o mainTh) labels)
    (ran : exec (Locking.step o) (Locking.init o mainTh) labels = some k) : k.Sound o :=
  exec_invariant (Locking.Sound o) (fun _ _ _ sound safe stepped => sound.step rr safe stepped)
    ⟨⟨_, _, _, Inv.initial rr mainTh⟩, fun _ yields => absurd yields Bool.false_ne_true⟩ safe ran

/-! ### The next operations of a thread -/

/-- The thread has called `set_slock_next_n` and is on its way to its next turn. -/
structure Ready (o : Options) (k : Locking) (tid : Tid) (n : Int) : Prop where
  place : k.sys.pc tid = .away ∨ k.sys.pc tid = .woken ∨ k.sys.pc tid = .waiting false
  notEnding : k.ending tid = false
  count : (k.locals tid).slockNTurns = n - 1
  notYield : (k.locals tid).yieldThis = false

/-- **The scheduler is locked on the thread**: it has the turn, and `m` of its operations have come to their
`putTurn`. -/
structure Lock (o : Options) (k : Locking) (tid : Tid) (n : Int) (m : Nat) : Prop where
  holder : ∃ runq hp, Inv o ⟨False, False⟩ k.sys runq hp (some tid)
  notYield : (k.locals tid).yieldThis = false
  place : (k.ending tid = false ∧ (k.locals tid).slockNTurns = n - 1 - m ∧
      (k.sys.pc tid = .away ∨ k.sys.pc tid = .woken ∨ k.sys.pc tid = .waiting false ∨
        k.sys.pc tid = .turn false)) ∨
    (k.ending tid = true ∧ (k.locals tid).slockNTurns = n - m ∧
      (k.sys.pc tid = .away ∨ ∃ runq hp, KeepsTurn o k.sys tid runq hp))

namespace Lock

/-- The thread has the turn, and nobody else. -/
theorem hasTurn (lock : Lock o k tid n m) : HasTurn o k.sys tid ∧ ∀ u, u ≠ tid → ¬ HasTurn o k.sys u := by
  obtain ⟨_, _, inv⟩ := lock.holder
  refine ⟨?_, fun u other has => ?_⟩
  · have own := inv.token tid
    rw [if_pos rfl] at own
    unfold HasTurn
    cases turn : (k.sys.pc tid).inTurn with
    | true => exact Or.inr rfl
    | false =>
      rw [turn] at own
      exact Or.inl (by simp at own; omega)
  · rcases has with posted | inTurn
    · exact other (Option.some.inj (inv.token.holder_of_posts posted)).symm
    · exact other (Option.some.inj (inv.holder_eq inTurn)).symm

/-- Who has the turn after a step, if it is a thread that has a post or is in its turn. -/
theorem holder_of_hasTurn {s : Sys} {t : Tid} (holds : Inv.Holds o ⟨False, False⟩ s) (has : HasTurn o s t) :
    ∃ runq hp, Inv o ⟨False, False⟩ s runq hp (some t) := by
  obtain ⟨runq, hp, holder, inv⟩ := holds
  have isHolder : holder = some t := by
    rcases has with posted | inTurn
    · exact inv.token.holder_of_posts posted
    · exact inv.holder_eq inTurn
  rw [isHolder] at inv
  exact ⟨runq, hp, inv⟩

/-- The steps of the other threads. -/
theorem aside (rr : o.RoundRobin) (lock : Lock o k tid n m) {t : Tid} {move : LockMove} (other : t ≠ tid)
    (safe : k.Safe o (t, move)) (stepped : k.step o (t, move) = some k') : Lock o k' tid n m := by
  obtain ⟨runq, hp, inv⟩ := id lock.holder
  have notMine : some tid ≠ some t := fun same => other (Option.some.inj same).symm
  have sameLocal := fun l => Locking.setLocal_of_ne (k := k) (Ne.symm other) l
  cases move with
  | act action =>
    simp only [Locking.step] at stepped
    split at stepped
    · obtain ⟨sys, moved, rfl⟩ := Option.map_eq_some_iff.mp stepped
      obtain ⟨aside, pcs⟩ := aside_of_not_holder rr inv notMine moved
      have samePc := pcs tid (Ne.symm other)
      have holds := inv.step rr ⟨safe, False.elim, False.elim⟩ moved
      have has : HasTurn o sys tid := by
        have before := lock.hasTurn.1
        unfold HasTurn at before ⊢
        rwa [aside.frame.1, samePc]
      refine ⟨holder_of_hasTurn holds has, lock.notYield, ?_⟩
      show (k.ending tid = false ∧ _ ∧ _) ∨ (k.ending tid = true ∧ _ ∧ _)
      rw [show ({ k with sys := sys } : Locking).sys.pc tid = k.sys.pc tid from samePc]
      refine lock.place.imp_right fun ⟨ending, count, place⟩ => ⟨ending, count, place.imp_right ?_⟩
      rintro ⟨runq, hp, keeps⟩
      exact ⟨runq, hp, keeps.step rr safe (fun same => other (congrArg Prod.fst same)) moved⟩
    · cases stepped
  | body stage core shared =>
    simp only [Locking.step] at stepped
    split at stepped
    · cases stepped
      refine ⟨lock.holder, ?_, ?_⟩
      · rw [sameLocal]
        exact lock.notYield
      · rw [sameLocal]
        exact lock.place
    · cases stepped
  | putTurn isCreate =>
    simp only [Locking.step] at stepped
    split at stepped
    · rename_i here
      have inTurn : (k.sys.pc t).inTurn = true := by
        rw [here]
        rfl
      exact absurd (inv.holder_eq inTurn) notMine
    · cases stepped
  | finish shared =>
    simp only [Locking.step] at stepped
    split at stepped
    · cases stepped
      have sameEnding : Function.update k.ending t false tid = k.ending tid :=
        Function.update_of_ne (Ne.symm other) _ _
      refine ⟨lock.holder, ?_, ?_⟩
      · exact (congrArg Local.yieldThis (sameLocal _)).trans lock.notYield
      · show (Function.update k.ending t false tid = false ∧ ((k.setLocal t _).locals tid).slockNTurns = _ ∧ _) ∨
          (Function.update k.ending t false tid = true ∧ ((k.setLocal t _).locals tid).slockNTurns = _ ∧ _)
        rw [sameEnding, sameLocal]
        exact lock.place
    · cases stepped
  | setSlockNextN nextNTurns =>
    simp only [Locking.step] at stepped
    split at stepped
    · cases stepped
      refine ⟨lock.holder, ?_, ?_⟩
      · rw [sameLocal]
        exact lock.notYield
      · rw [sameLocal]
        exact lock.place
    · cases stepped

/-- The step of the thread inside a method of the scheduler. -/
theorem own_act (rr : o.RoundRobin) (lock : Lock o k tid n m) {action : Action} (ordinary : action.ordinary = true)
    (safe : QueueSafe o k.sys (tid, action)) (stepped : k.step o (tid, .act action) = some k') :
    Lock o k' tid n m := by
  obtain ⟨runq, hp, inv⟩ := id lock.holder
  simp only [Locking.step] at stepped
  split at stepped
  · rename_i may
    obtain ⟨sys, moved, rfl⟩ := Option.map_eq_some_iff.mp stepped
    have holds := inv.step rr ⟨safe, False.elim, False.elim⟩ moved
    have turned := Sys.threadStep_of_step moved
    -- the thread is not in `SCHED_TIMER_END`
    have between : ∀ pc, sys.pc tid = pc → HasTurn o sys tid → k.ending tid = false →
        (k.locals tid).slockNTurns = n - 1 - m →
        (pc = .away ∨ pc = .woken ∨ pc = .waiting false ∨ pc = .turn false) →
          Lock o { k with sys := sys } tid n m := by
      intro pc isPc has notEnding count place
      exact ⟨holder_of_hasTurn holds has, lock.notYield, Or.inl ⟨notEnding, count, isPc ▸ place⟩⟩
    rcases lock.place with ⟨notEnding, count, place⟩ | ⟨ending, count, place⟩
    · have arrive : k.sys.awayStep tid action = some sys → (k.sys.pc tid).inTurn = false →
          Lock o { k with sys := sys } tid n m := by
        intro arrives outTurn
        cases action with
        | getTurn =>
          cases arrives
          have posted : 0 < (k.sys.sched.waits tid).posts o := by
            rcases lock.hasTurn.1 with posted | inTurn
            · exact posted
            · rw [outTurn] at inTurn
              cases inTurn
          exact between _ goto_pc_self (Or.inl posted) notEnding count (by simp)
        | _ => first | cases ordinary; done | cases arrives
      rcases place with here | here | here | here
      · simp only [Sys.threadStep, here] at turned
        exact arrive turned (by rw [here]; rfl)
      · simp only [Sys.threadStep, here] at turned
        exact arrive turned (by rw [here]; rfl)
      · cases action with
        | gotTurn =>
          simp only [Sys.threadStep, here] at turned
          obtain ⟨sched, -, rfl⟩ := Option.map_eq_some_iff.mp turned
          exact between _ goto_pc_self (Or.inr (by rw [goto_pc_self]; rfl)) notEnding count (by simp)
        | _ => simp [Sys.threadStep, here] at turned
      · have stays : sys.pc tid = .turn false → Lock o { k with sys := sys } tid n m := fun isTurn =>
          between _ isTurn (Or.inr (by rw [isTurn]; rfl)) notEnding count (by simp)
        simp only [Sys.threadStep, here] at turned
        cases action with
        | incTurnCount order =>
          obtain ⟨-, rfl⟩ := Sys.turnStep_incTurnCount turned
          exact stays here
        | signal chan all =>
          cases turned
          exact stays here
        | changeRole th roleFunc =>
          cases turned
          exact stays here
        | _ => first | cases ordinary; done | cases turned
    · rcases place with here | ⟨runq₀, hp₀, keeps⟩
      · have inNext := (Bool.and_eq_true_iff.mp may).1
        rw [ending, here] at inNext
        cases inNext
      · by_cases isPost : action = .post
        · subst isPost
          obtain ⟨phase, here, proceeds⟩ := keeps.proceeds rr
          simp only [Sys.threadStep, here, Sys.leaveStep] at turned
          cases phase with
          | posting next =>
            obtain rfl := proceeds.1
            cases turned
            exact ⟨⟨_, _, inv.post rr here⟩, lock.notYield, Or.inr ⟨ending, count, Or.inl goto_pc_self⟩⟩
          | _ => cases turned
        · have keeps' := keeps.step rr safe (fun same => isPost (congrArg Prod.snd same)) moved
          exact ⟨holder_of_hasTurn holds (Or.inr keeps'.inTurn), lock.notYield,
            Or.inr ⟨ending, count, Or.inr ⟨_, _, keeps'⟩⟩⟩
  · cases stepped

/-- The thread is in its turn, so not after a `putTurn`. -/
theorem of_turn (lock : Lock o k tid n m) (here : k.sys.pc tid = .turn false) :
    k.ending tid = false ∧ (k.locals tid).slockNTurns = n - 1 - m := by
  rcases lock.place with ⟨notEnding, count, -⟩ | ⟨-, -, place | ⟨_, _, keeps⟩⟩
  · exact ⟨notEnding, count⟩
  · rw [here] at place
    cases place
  · obtain ⟨phase, leaving, -⟩ := keeps.here
    rw [here] at leaving
    cases leaving

/-- **Every step**, while fewer than `n` operations have come to their `putTurn`. -/
theorem step (rr : o.RoundRobin) (lock : Lock o k tid n m) {label : Tid × LockMove}
    (ordinary : label.1 = tid → label.2.ordinary = true) (safe : k.Safe o label)
    (few : ((m + ends tid [label] : Nat) : Int) < n) (stepped : k.step o label = some k') :
    Lock o k' tid n (m + ends tid [label]) := by
  obtain ⟨t, move⟩ := label
  by_cases own : t = tid
  · subst own
    have isOrdinary := ordinary rfl
    have none : move.isEnd = false → ends t [(t, move)] = 0 := fun notEnd => by simp [ends, notEnd]
    cases move with
    | act action =>
      rw [none rfl]
      exact lock.own_act rr isOrdinary safe stepped
    | body stage core shared =>
      rw [none rfl]
      simp only [Locking.step] at stepped
      split at stepped
      · rename_i allowed
        obtain ⟨notEnding, count⟩ := lock.of_turn allowed.1
        obtain ⟨slock, yields⟩ :=
          @turn_slock _ (Core.serializer o.wakeamapPlus) o t ⟨core, shared, k.locals t⟩ stage
          (of_decide_eq_true isOrdinary)
        cases stepped
        refine ⟨lock.holder, ?_, Or.inl ⟨notEnding, ?_, Or.inr (Or.inr (Or.inr allowed.1))⟩⟩
        · rw [Locking.setLocal_self, yields]
          exact lock.notYield
        · rw [Locking.setLocal_self, slock]
          exact count
      · cases stepped
    | putTurn isCreate =>
      have notCreate : isCreate = false := by simpa [LockMove.ordinary] using isOrdinary
      subst notCreate
      have one : ends t [(t, .putTurn false)] = 1 := by simp [ends, LockMove.isEnd]
      rw [one] at few ⊢
      simp only [Locking.step] at stepped
      split at stepped
      · rename_i here
        obtain ⟨notEnding, count⟩ := lock.of_turn here
        have locked : 0 < (k.locals t).slockNTurns := by
          rw [count]
          omega
        rw [strategy_of_slock locked lock.notYield] at stepped
        obtain ⟨sys, moved, rfl⟩ := Option.map_eq_some_iff.mp stepped
        obtain ⟨runq, hp, inv⟩ := lock.holder
        have keeps := KeepsTurn.start rr inv here moved
        have sameLocal := @Locking.setLocal_self k t (k.locals t)
        refine ⟨holder_of_hasTurn keeps.inv (Or.inr keeps.inTurn), ?_, Or.inr ⟨Function.update_self _ _ _, ?_,
          Or.inr ⟨_, _, keeps⟩⟩⟩
        · exact (congrArg Local.yieldThis sameLocal).trans lock.notYield
        · refine (congrArg Local.slockNTurns sameLocal).trans ?_
          rw [count]
          omega
      · cases stepped
    | finish shared =>
      rw [none rfl] at few ⊢
      simp only [Locking.step] at stepped
      split at stepped
      · rename_i allowed
        rcases lock.place with ⟨notEnding, -⟩ | ⟨ending, count, here | ⟨_, _, keeps⟩⟩
        · rw [allowed.1] at notEnding
          cases notEnding
        · have locked : 0 < (k.locals t).slockNTurns := by
            rw [count]
            omega
          obtain ⟨slock, yields⟩ := @afterPutTurn_slock o shared _ locked
          cases stepped
          refine ⟨lock.holder, ?_, Or.inl ⟨Function.update_self _ _ _, ?_, Or.inl here⟩⟩
          · refine (congrArg Local.yieldThis (Locking.setLocal_self _)).trans ?_
            rw [yields]
            exact lock.notYield
          · refine (congrArg Local.slockNTurns (Locking.setLocal_self _)).trans ?_
            rw [slock, count]
            omega
        · obtain ⟨phase, leaving, -⟩ := keeps.here
          rw [leaving] at allowed
          cases allowed.2
      · cases stepped
    | setSlockNextN nextNTurns => cases isOrdinary
  · have none : ends tid [(t, move)] = 0 := by simp [ends, own]
    rw [none, Nat.add_zero]
    exact lock.aside rr own safe stepped

/-- **Along a run**, while fewer than `n` operations have come to their `putTurn`. -/
theorem run (rr : o.RoundRobin) {labels : List (Tid × LockMove)} (lock : Lock o k tid n m)
    (ordinary : ∀ label ∈ labels, label.1 = tid → label.2.ordinary = true)
    (safe : Along (Locking.step o) (Locking.Safe o) k labels) (few : ((m + ends tid labels : Nat) : Int) < n)
    (ran : exec (Locking.step o) k labels = some k') : Lock o k' tid n (m + ends tid labels) := by
  induction labels generalizing k m with
  | nil =>
    cases ran
    exact lock
  | cons label labels ih =>
    obtain ⟨next, stepped, rest⟩ := exec_cons ran
    rw [ends_cons, ← Nat.add_assoc] at few ⊢
    have lock' := lock.step rr (ordinary label List.mem_cons_self) safe.1 (by omega) stepped
    exact ih lock' (fun other member => ordinary other (List.mem_cons_of_mem _ member)) (safe.2 next stepped)
      few rest

end Lock

/-- A thread that is alive is moved by its own steps only. -/
theorem pc_of_live {s s' : Sys} (holds : Inv.Holds o ⟨False, False⟩ s) {t : Tid} (alive : (s.pc t).live = true)
    (other : t ≠ tid) {action : Action} (stepped : s.step o (tid, action) = some s') : s'.pc t = s.pc t := by
  obtain ⟨_, _, _, inv⟩ := holds
  have known := inv.layout.known t ((inv.live t).mpr alive)
  exact (Moves.of_step stepped).pc_of_ne other (Nat.ne_of_gt known)

namespace Ready

theorem alive (ready : Ready o k tid n) : (k.sys.pc tid).live = true ∧ k.sys.pc tid ≠ .turn false := by
  rcases ready.place with here | here | here
  · rw [here]
    exact ⟨rfl, nofun⟩
  · rw [here]
    exact ⟨rfl, nofun⟩
  · rw [here]
    exact ⟨rfl, nofun⟩

/-- **A step on the way to the next turn.** -/
theorem step (rr : o.RoundRobin) (ready : Ready o k tid n) (sound : k.Sound o) {label : Tid × LockMove}
    (ordinary : label.1 = tid → label.2.ordinary = true) (safe : k.Safe o label)
    (stepped : k.step o label = some k') :
    ends tid [label] = 0 ∧
      (label = (tid, .act .gotTurn) ∧ Lock o k' tid n 0 ∨ label ≠ (tid, .act .gotTurn) ∧ Ready o k' tid n) := by
  obtain ⟨alive, notTurn⟩ := ready.alive
  have sound' := sound.step rr safe stepped
  obtain ⟨t, move⟩ := label
  by_cases own : t = tid
  · subst own
    have isOrdinary := ordinary rfl
    cases move with
    | act action =>
      refine ⟨by simp [ends, LockMove.isEnd], ?_⟩
      simp only [Locking.step] at stepped
      split at stepped
      · obtain ⟨sys, moved, rfl⟩ := Option.map_eq_some_iff.mp stepped
        have turned := Sys.threadStep_of_step moved
        have arrive : k.sys.awayStep t action = some sys → (t, LockMove.act action) = (t, .act .gotTurn) ∧
            Lock o { k with sys := sys } t n 0 ∨ (t, LockMove.act action) ≠ (t, .act .gotTurn) ∧
            Ready o { k with sys := sys } t n := by
          intro arrives
          cases action with
          | getTurn =>
            cases arrives
            exact Or.inr ⟨nofun, Or.inr (Or.inr goto_pc_self), ready.notEnding, ready.count, ready.notYield⟩
          | _ => first | cases isOrdinary; done | cases arrives
        rcases ready.place with here | here | here
        · simp only [Sys.threadStep, here] at turned
          exact arrive turned
        · simp only [Sys.threadStep, here] at turned
          exact arrive turned
        · cases action with
          | gotTurn =>
            simp only [Sys.threadStep, here] at turned
            obtain ⟨sched, -, rfl⟩ := Option.map_eq_some_iff.mp turned
            have isTurn : (k.sys.goto t sched (.turn false)).pc t = .turn false := goto_pc_self
            refine Or.inl ⟨rfl, Lock.holder_of_hasTurn sound'.inv (Or.inr ?_), ready.notYield,
              Or.inl ⟨ready.notEnding, ?_, Or.inr (Or.inr (Or.inr isTurn))⟩⟩
            · show ((k.sys.goto t sched (.turn false)).pc t).inTurn = true
              rw [isTurn]
              rfl
            · refine ready.count.trans ?_
              omega
          | _ => simp [Sys.threadStep, here] at turned
      · cases stepped
    | body stage core shared =>
      simp only [Locking.step] at stepped
      split at stepped
      · rename_i allowed
        exact absurd allowed.1 notTurn
      · cases stepped
    | putTurn isCreate =>
      simp only [Locking.step] at stepped
      split at stepped
      · rename_i here
        exact absurd here notTurn
      · cases stepped
    | finish shared =>
      simp only [Locking.step] at stepped
      split at stepped
      · rename_i allowed
        rw [ready.notEnding] at allowed
        cases allowed.1
      · cases stepped
    | setSlockNextN nextNTurns => cases isOrdinary
  · refine ⟨by simp [ends, own], Or.inr ⟨fun same => own (congrArg Prod.fst same), ?_⟩⟩
    have sameLocal := fun l => Locking.setLocal_of_ne (k := k) (Ne.symm own) l
    have sameEnding := fun b => Function.update_of_ne (f := k.ending) (Ne.symm own) b
    cases move with
    | act action =>
      simp only [Locking.step] at stepped
      split at stepped
      · obtain ⟨sys, moved, rfl⟩ := Option.map_eq_some_iff.mp stepped
        refine ⟨?_, ready.notEnding, ready.count, ready.notYield⟩
        show sys.pc tid = _ ∨ sys.pc tid = _ ∨ sys.pc tid = _
        rw [pc_of_live sound.inv alive (Ne.symm own) moved]
        exact ready.place
      · cases stepped
    | body stage core shared =>
      simp only [Locking.step] at stepped
      split at stepped
      · cases stepped
        refine ⟨ready.place, ready.notEnding, ?_, ?_⟩
        · rw [sameLocal]
          exact ready.count
        · rw [sameLocal]
          exact ready.notYield
      · cases stepped
    | putTurn isCreate =>
      simp only [Locking.step] at stepped
      split at stepped
      · obtain ⟨sys, moved, rfl⟩ := Option.map_eq_some_iff.mp stepped
        refine ⟨?_, (sameEnding _).trans ready.notEnding,
          (congrArg Local.slockNTurns (sameLocal _)).trans ready.count,
          (congrArg Local.yieldThis (sameLocal _)).trans ready.notYield⟩
        show sys.pc tid = _ ∨ sys.pc tid = _ ∨ sys.pc tid = _
        rw [pc_of_live sound.inv alive (Ne.symm own) moved]
        exact ready.place
      · cases stepped
    | finish shared =>
      simp only [Locking.step] at stepped
      split at stepped
      · cases stepped
        exact ⟨ready.place, (sameEnding _).trans ready.notEnding,
          (congrArg Local.slockNTurns (sameLocal _)).trans ready.count,
          (congrArg Local.yieldThis (sameLocal _)).trans ready.notYield⟩
      · cases stepped
    | setSlockNextN nextNTurns =>
      simp only [Locking.step] at stepped
      split at stepped
      · cases stepped
        refine ⟨ready.place, ready.notEnding, ?_, ?_⟩
        · rw [sameLocal]
          exact ready.count
        · rw [sameLocal]
          exact ready.notYield
      · cases stepped

/-- **From the first turn on the scheduler is locked.** -/
theorem run (rr : o.RoundRobin) {labels : List (Tid × LockMove)} (ready : Ready o k tid n) (sound : k.Sound o)
    (ordinary : ∀ label ∈ labels, label.1 = tid → label.2.ordinary = true)
    (safe : Along (Locking.step o) (Locking.Safe o) k labels) (got : (tid, .act .gotTurn) ∈ labels)
    (few : (ends tid labels : Int) < n) (ran : exec (Locking.step o) k labels = some k') :
    Lock o k' tid n (ends tid labels) := by
  induction labels generalizing k with
  | nil => cases got
  | cons label labels ih =>
    obtain ⟨next, stepped, rest⟩ := exec_cons ran
    have later := fun other member => ordinary other (List.mem_cons_of_mem label member)
    obtain ⟨none, goes⟩ := ready.step rr sound (ordinary label List.mem_cons_self) safe.1 stepped
    rw [ends_cons, none] at few ⊢
    rcases goes with ⟨-, lock⟩ | ⟨notYet, ready'⟩
    · exact lock.run rr later (safe.2 next stepped) few rest
    · rw [Nat.zero_add] at few ⊢
      exact ih ready' (sound.step rr safe.1 stepped) later (safe.2 next stepped)
        ((List.mem_cons.mp got).resolve_left fun same => notYet same.symm) few rest

end Ready

end Runs

/-- **Locking the scheduler on the current thread.** In a run that keeps the queues apart, when a thread
with the turn calls `putTurn(false, CURRENT_THREAD)`: whatever the other threads do, until its post the
threads that were in the queues are there in the same order and in front of any others, and the caller
goes on to post itself. With `enforce_next_n_annotations`, after `set_slock_next_n(n)` the thread has
the turn, and nobody else, from the first turn of its next operations until the `putTurn` of the `n`-th
one. -/
theorem scheduler_lock (o : Options) (rr : o.RoundRobin) (mainTh : PthreadT) :
    (∀ labels s, Along (Sys.step o) (QueueSafe o) (Sys.init o mainTh) labels →
      exec (Sys.step o) (Sys.init o mainTh) labels = some s →
      s.outcome ≠ some .exited → s.outcome ≠ some .crashed → ∀ tid, s.pc tid = .turn false →
      ∃ runq hp s₁, Forward (fun t => (s.sched.elems t).next) s.sched.runq.head runq ∧
        Forward (fun t => (s.sched.elems t).next) s.sched.hpRunq.head hp ∧
        s.step o (tid, .putTurn .currentThread) = some s₁ ∧
        ∀ during s', Along (Sys.step o) (QueueSafe o) s₁ during → (tid, .post) ∉ during →
          exec (Sys.step o) s₁ during = some s' →
          s'.sched.Behind runq hp ∧ ∃ phase, s'.pc tid = .leaving phase false .currentThread .away ∧
            Proceeds o s' tid runq hp phase) ∧
    (o.enforceNextNAnnotations = true → ∀ before k,
      Along (Locking.step o) (Locking.Safe o) (Locking.init o mainTh) before →
      exec (Locking.step o) (Locking.init o mainTh) before = some k →
      ∀ (tid : Tid) (n : Int) k₁, 1 ≤ n → k.step o (tid, .setSlockNextN n) = some k₁ →
      ∀ later k₂, Along (Locking.step o) (Locking.Safe o) k₁ later →
        (∀ label ∈ later, label.1 = tid → label.2.ordinary = true) →
        exec (Locking.step o) k₁ later = some k₂ → (tid, .act .gotTurn) ∈ later → (ends tid later : Int) < n →
        HasTurn o k₂.sys tid ∧ ∀ u, u ≠ tid → ¬ HasTurn o k₂.sys u) := by
  refine ⟨fun labels s safe ran notExited notCrashed tid here => ?_,
    fun annotated before k safe ran tid n k₁ _ calls later
    k₂ safe' ordinary ran' got few => ?_⟩
  · obtain ⟨runq, hp, holder, inv⟩ : Inv.Holds o ⟨False, False⟩ s :=
      Inv.run rr (fun s label _ fine => ⟨fine, False.elim, False.elim⟩) safe ran
    obtain ⟨s₁, stepped⟩ : ∃ s₁, s.step o (tid, .putTurn .currentThread) = some s₁ := by
      refine ⟨s.leave tid (s.sched.putTurn o tid .currentThread) false .currentThread .away, ?_⟩
      unfold Sys.step
      split
      · exact absurd ‹_› notExited
      · exact absurd ‹_› notCrashed
      · simp only [Sys.threadStep, here]
        rfl
    have keeps := KeepsTurn.start rr inv here stepped
    refine ⟨runq, hp, s₁, inv.layout.linked.queue.forward, inv.layout.linked.second.forward, stepped,
      fun during s' safe' before ran' => ?_⟩
    have keeps' := keeps.run rr safe' before ran'
    exact ⟨keeps'.behind, keeps'.proceeds rr⟩
  · have sound := Locking.Sound.run rr safe ran
    have callSafe : k.Safe o (tid, .setSlockNextN n) := trivial
    have sound₁ := sound.step rr callSafe calls
    have ready : Ready o k₁ tid n := by
      simp only [Locking.step] at calls
      split at calls
      · rename_i allowed
        cases calls
        have notYield : (k.locals tid).yieldThis = false := Bool.eq_false_iff.mpr fun yields => by
          have here := sound.yields tid yields
          rcases allowed.1 with away | woken
          · rw [here] at away
            cases away
          · rw [here] at woken
            cases woken
        refine ⟨allowed.1.imp_right Or.inl, allowed.2, ?_, ?_⟩
        · rw [Locking.setLocal_self, setSlockNextN, if_pos annotated]
        · rw [Locking.setLocal_self, setSlockNextN, if_pos annotated]
          exact notYield
      · cases calls
    exact (ready.run rr sound₁ ordinary safe' got few ran').hasTurn

/-- The main thread creates thread `1` and gives the turn up, and so does thread `1`. -/
def twoThreads : List (Tid × LockMove) :=
  (enterTurn 0).map (fun label => (label.1, .act label.2)) ++ [(0, .act (.create 101 7)), (0, .putTurn true)] ++
    (passTurn 0 1).map (fun label => (label.1, .act label.2)) ++ [(0, .finish {})] ++
    (enterTurn 1 ++ giveTurn 1 .default 1).map fun label => (label.1, .act label.2)

/-- The first of two operations of the main thread, and the turn of the second. -/
def firstOfTwo : List (Tid × LockMove) :=
  (enterTurn 0).map (fun label => (label.1, .act label.2)) ++
    [(0, .act (.incTurnCount [])), (0, .putTurn false)] ++
    (passTurn 0 1).map (fun label => (label.1, .act label.2)) ++ [(0, .finish {})] ++
    (enterTurn 0).map fun label => (label.1, .act label.2)

/-- After `set_slock_next_n(2)` the main thread has the second turn as well. -/
theorem scheduler_lock_firstOfTwo : ∃ k k₁ k₂,
    exec (Locking.step { enforceNextNAnnotations := true }) (Locking.init { enforceNextNAnnotations := true } 100)
      twoThreads = some k ∧
    k.step { enforceNextNAnnotations := true } (0, .setSlockNextN 2) = some k₁ ∧
    exec (Locking.step { enforceNextNAnnotations := true }) k₁ firstOfTwo = some k₂ ∧ ends 0 firstOfTwo = 1 ∧
    HasTurn { enforceNextNAnnotations := true } k₂.sys 0 ∧
    ∀ u, u ≠ 0 → ¬ HasTurn { enforceNextNAnnotations := true } k₂.sys u := by
  have found : (exec (Locking.step { enforceNextNAnnotations := true })
      (Locking.init { enforceNextNAnnotations := true } 100) twoThreads).any (fun k =>
        (k.step { enforceNextNAnnotations := true } (0, .setSlockNextN 2)).any fun k₁ =>
          decide (Along (Locking.step { enforceNextNAnnotations := true })
            (Locking.Safe { enforceNextNAnnotations := true }) k₁ firstOfTwo) &&
          (exec (Locking.step { enforceNextNAnnotations := true }) k₁ firstOfTwo).isSome) = true := by
    decide +kernel
  obtain ⟨k, ran, found⟩ := exec_of_any found
  obtain ⟨k₁, calls, facts⟩ := (Option.any_eq_true _ _).mp found
  obtain ⟨safe, isSome⟩ := Bool.and_eq_true_iff.mp facts
  obtain ⟨k₂, ran'⟩ := Option.isSome_iff_exists.mp isSome
  have locked := (scheduler_lock { enforceNextNAnnotations := true } (by decide) 100).2 rfl twoThreads k
    (by decide +kernel) ran 0 2 k₁ (by decide) calls firstOfTwo k₂ (of_decide_eq_true safe) (by decide) ran'
    (by simp [firstOfTwo, enterTurn]) (by decide)
  exact ⟨k, k₁, k₂, ran, calls, ran', by decide, locked⟩

/-- **With a stale flag another thread is posted.** The main thread, at the front of `runq`, is about to
post thread `2`. -/
theorem stale_flag_posts_another : twoQueues.RoundRobin ∧
    ∃ s s', exec (Sys.step twoQueues) (Sys.init twoQueues 100) staleFlag.dropLast = some s ∧ s.outcome = none ∧
      s.pc 0 = .turn false ∧ s.sched.runq.head = some 0 ∧
      exec (Sys.step twoQueues) s [(0, .putTurn .currentThread), (0, .checkWakeup []), (0, .nextRunnable)] =
        some s' ∧
      s'.pc 0 = .leaving (.posting 2) false .currentThread .away := by
  have found : (exec (Sys.step twoQueues) (Sys.init twoQueues 100) staleFlag.dropLast).any (fun s =>
      decide (s.outcome = none ∧ s.pc 0 = .turn false ∧ s.sched.runq.head = some 0) &&
      (exec (Sys.step twoQueues) s [(0, .putTurn .currentThread), (0, .checkWakeup []), (0, .nextRunnable)]).any
        fun s' => decide (s'.pc 0 = .leaving (.posting 2) false .currentThread .away)) = true := by decide +kernel
  obtain ⟨s, ran, facts⟩ := exec_of_any found
  obtain ⟨here, after⟩ := Bool.and_eq_true_iff.mp facts
  obtain ⟨alive, inTurn, head⟩ := of_decide_eq_true here
  obtain ⟨s', ran', posts⟩ := exec_of_any after
  exact ⟨by decide, s, s', ran, alive, inTurn, head, ran', of_decide_eq_true posts⟩

end MinSmt
