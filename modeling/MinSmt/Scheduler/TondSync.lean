/-
**The mode without run queues** (`TONDSync`, `enforce_turn_type < 0`).

Here nobody chooses who is next. `getTurn` waits until the thread's own flag `runnable` is up, and then
competes for the lock `inSync`; `next` only lets go of the lock. A waiting thread is held back by its
flag alone, which `reset` and `post` raise and `RRScheduler::wait` lowers.

`Tond` is a process in this mode. It adds to `Sys` which threads have seen their flag up and are now
at the compare-exchange, so that the two steps of `wait_t::wait` are apart. A thread reads its own flag
only, and inside an operation of the turn holder that flag is written from down to up at most, so a read
in the middle of an operation sees what a read before or after it sees.

* `TondStep` — what a step can do in this mode; `tondStep_of_step` says that every step is like that.
* `Tond.Safe` — the invariant: the lock has one owner, and the flags say who is in `waitq`. The side set
  of `check_wakeup` never meets `waitq`, because `wait` empties it before it lowers the caller's flag.
* **`tond_sync`** — what holds after every run, and how a thread gets out of `wait`.
-/

import MinSmt.Scheduler.Waking
import MinSmt.Scheduler.Invariant

namespace MinSmt

open MinSmt.Library

/-! ### The process -/

/-- A process in the mode without run queues. -/
structure Tond where
  sys : Sys
  /-- The thread has seen its `runnable` up, and is at the compare-exchange on `inSync`. -/
  ready : Tid → Bool := fun _ => false

namespace Tond

/-- What a thread can do. -/
inductive Move
  /-- Read `runnable` as true. -/
  | read
  /-- A successful `inSync.compare_exchange_strong`. -/
  | swap
  /-- Any other step. -/
  | act (action : Action)
  deriving DecidableEq, Repr

/-- **One step.** `wait_t::wait` is cut in two, so `gotTurn` is not a step. -/
def step (o : Options) (s : Tond) (label : Tid × Move) : Option Tond :=
  match label.2, s.sys.pc label.1 with
  | .read, .waiting _ =>
    if (s.sys.sched.waits label.1).runnable then
      some { s with ready := Function.update s.ready label.1 true }
    else none
  | .swap, .waiting blocking =>
    if s.ready label.1 = true ∧ s.sys.sched.inSync = false then
      some { sys := s.sys.goto label.1 { s.sys.sched with inSync := true } (.turn blocking)
             ready := Function.update s.ready label.1 false }
    else none
  | .act action, _ =>
    if action = .gotTurn then none
    else (s.sys.step o (label.1, action)).map fun sys => { s with sys := sys }
  | _, _ => none

/-- The process after the scheduler has been made. -/
def init (o : Options) (mainTh : PthreadT) : Tond := { sys := Sys.init o mainTh }

/-- `wait_t::wait` in one piece is a read and a swap. -/
theorem gotTurn_eq {o : Options} (tond : o.enforceTurnType < 0) {s : Tond} {tid : Tid} {sys : Sys}
    (here : s.sys.step o (tid, .gotTurn) = some sys) (fresh : s.ready tid = false) :
    exec (step o) s [(tid, .read), (tid, .swap)] = some { s with sys := sys } := by
  have taken : ∃ blocking, s.sys.pc tid = .waiting blocking ∧
      (s.sys.sched.take o tid).map (fun sched => s.sys.goto tid sched (.turn blocking)) =
        some sys := by
    have stepped := Sys.threadStep_of_step here
    cases place : s.sys.pc tid with
    | waiting blocking =>
      simp only [Sys.threadStep, place] at stepped
      exact ⟨blocking, rfl, stepped⟩
    | turn blocking => cases blocking <;> simp [Sys.threadStep, Sys.turnStep, place] at stepped
    | _ => simp [Sys.threadStep, Sys.awayStep, Sys.leaveStep, place] at stepped
  obtain ⟨blocking, place, taken⟩ := taken
  obtain ⟨sched, isTaken, rfl⟩ := Option.map_eq_some_iff.mp taken
  have posts : (s.sys.sched.waits tid).take o =
      if (s.sys.sched.waits tid).runnable then some (s.sys.sched.waits tid) else none := by
    unfold WaitT.take
    rw [if_neg (by omega), if_neg (by omega), if_pos tond]
  unfold Sched.take at isTaken
  rw [posts] at isTaken
  split at isTaken
  · rename_i runnable
    simp only [Option.bind_some] at isTaken
    split at isTaken
    · cases isTaken
    · rename_i free
      cases isTaken
      have first : step o s (tid, .read) = some { s with ready := Function.update s.ready tid true } := by
        unfold step
        simp only [place, runnable, if_true]
      have second : step o { s with ready := Function.update s.ready tid true } (tid, .swap) =
          some { sys := s.sys.goto tid { s.sys.sched with inSync := true } (.turn blocking)
                 ready := s.ready } := by
        unfold step
        simp only [place, Function.update_self, free, and_self, if_true, Function.update_idem]
        rw [← fresh, Function.update_eq_self]
      show (step o s (tid, .read)).bind _ = _
      rw [first]
      show (step o _ (tid, .swap)).bind _ = _
      rw [second]
      rfl
  · cases isTaken

end Tond

/-! ### The operations in this mode -/

/-- The flags say who is in `waitq`. -/
def Core.Flags (c : Core) : Prop := ∀ t, (c.waits t).runnable = false ↔ t ∈ c.waitq

/-- How a thread left `waitq`: its flag is up, and it was signalled or its deadline was before the turn
count. -/
def Roused (chan : Option Chan) (turnCount : Nat) (before after : WaitT) : Prop :=
  after.runnable = true ∧
    ((after.wakeReason = .signal ∧ before.chan.isSome = true ∧ before.chan = chan) ∨
      (after.wakeReason = .timedout ∧ before.timeout < turnCount))

theorem Core.Flags.passed {c c' : Core} (flags : c.Flags) {chan : Option Chan} {turnCount : Nat}
    (passed : Core.Passed (Roused chan turnCount) c c') : c'.Flags := by
  intro t
  by_cases stays : t ∈ c'.waitq
  · rw [passed.same t (Or.inl stays), flags t]
    exact iff_of_true (passed.kept.subset stays) stays
  · refine iff_of_false (fun down => ?_) stays
    by_cases before : t ∈ c.waitq
    · have up := (passed.gone t before stays).1
      rw [down] at up
      cases up
    · rw [passed.same t (Or.inr before)] at down
      exact before ((flags t).mp down)

theorem passed_signal {c c' : Core} {chan : Chan} {turnCount : Nat}
    (passed : Core.Passed (Roused (some chan) turnCount) c c') (all : Bool) :
    Core.Passed (Roused (some chan) turnCount) c (c'.signal chan all).1 := by
  refine passed.pass all fun t inside found => ⟨rfl, Or.inl ⟨rfl, ?_⟩⟩
  rw [← passed.same t (Or.inl inside), eq_of_beq found]
  exact ⟨rfl, rfl⟩

theorem passed_incTurnCount {c : Core} (nodup : c.waitq.Nodup) (chan : Option Chan) :
    Core.Passed (Roused chan c.incTurnCount.turnCount) c c.incTurnCount := by
  have ticked : Core.Passed (Roused chan c.incTurnCount.turnCount) c c.tick :=
    Core.Passed.still nodup rfl rfl
  exact ticked.pass true fun t inside late => ⟨rfl, Or.inr ⟨rfl, of_decide_eq_true late⟩⟩

theorem passed_finish {c c' : Core} {chan : Option Chan} {turnCount : Nat} {tid : Tid}
    (passed : Core.Passed (Roused chan turnCount) c c')
    (isChan : chan = (c'.tm.tToP tid).map .thread) :
    Core.Passed (Roused chan turnCount) c (c'.finish tid) := by
  subst isChan
  unfold Core.finish
  cases handle : c'.tm.tToP tid with
  | none =>
    rw [handle] at passed
    exact ⟨passed.nodup, passed.kept, passed.same, passed.gone⟩
  | some th =>
    rw [handle] at passed
    have signalled := passed_signal passed false
    exact ⟨signalled.nodup, signalled.kept, signalled.same, signalled.gone⟩

theorem Core.finish_counts (c : Core) (tid : Tid) :
    (c.finish tid).turnCount = c.turnCount ∧ (c.finish tid).tm = c.tm.zombify tid := by
  unfold Core.finish
  cases c.tm.tToP tid <;> exact ⟨rfl, rfl⟩

namespace Sched

variable {o : Options} {s : Sched} {tid : Tid}

/-- What the operations rely on: the flags say who is in `waitq`, and the threads of the side set are
not there. -/
structure Sorted (s : Sched) : Prop where
  nodup : s.waitq.Nodup
  flags : s.toCore.Flags
  aside : ∀ t ∈ s.interProWakeupTids, t ∉ s.waitq
  raised : s.interProWakeupFlag = false → s.interProWakeupTids = []

section

variable (tond : o.enforceTurnType < 0)
include tond

theorem post_of_runnable (runnable : (s.waits tid).runnable = true) : s.post o tid = s := by
  have same : (s.waits tid).post o = s.waits tid := by
    unfold WaitT.post
    rw [if_neg (by omega), if_neg (by omega), if_pos tond, ← runnable]
  unfold post
  rw [same, Function.update_eq_self]

theorem foldl_makeRunnable_of_runnable {woken : List Tid}
    (runnable : ∀ t ∈ woken, (s.waits t).runnable = true) :
    woken.foldl (makeRunnable o) s = s := by
  induction woken with
  | nil => rfl
  | cons t woken ih =>
    have same : s.makeRunnable o t = s := by
      unfold makeRunnable
      rw [if_neg (by omega)]
      exact post_of_runnable tond (runnable t List.mem_cons_self)
    rw [List.foldl_cons, same]
    exact ih fun t' member => runnable t' (List.mem_cons_of_mem _ member)

/-- `reset` has raised the flags already. -/
theorem signal_eq (nodup : s.waitq.Nodup) (chan : Chan) (all : Bool) :
    s.signal o chan all = { s with toCore := (s.toCore.signal chan all).1 } := by
  refine foldl_makeRunnable_of_runnable tond fun t woken => ?_
  show ((s.toCore.signal chan all).1.waits t).runnable = true
  rw [show (s.toCore.signal chan all).1.waits t = _ from scan_wake nodup woken]
  rfl

theorem tickAndFire_eq (nodup : s.waitq.Nodup) :
    s.tickAndFire o = { s with toCore := s.toCore.incTurnCount } := by
  refine foldl_makeRunnable_of_runnable tond fun t woken => ?_
  show (s.toCore.tick.fireTimeouts.1.waits t).runnable = true
  rw [show s.toCore.tick.fireTimeouts.1.waits t = _ from scan_wake nodup woken]
  rfl

theorem foldl_bringBack_of_runnable {order : List Tid}
    (runnable : ∀ t ∈ order, (s.waits t).runnable = true) :
    ∃ nonDet, order.foldl (bringBack o) s = { s with nonDetThds := nonDet } := by
  induction order generalizing s with
  | nil => exact ⟨_, rfl⟩
  | cons t order ih =>
    have first : ∃ nonDet, s.bringBack o t = { s with nonDetThds := nonDet } := by
      unfold bringBack
      split
      · exact ⟨_, rfl⟩
      · have posts : ¬ 0 ≤ o.enforceTurnType := by omega
        rw [if_neg posts, post_of_runnable tond (runnable t List.mem_cons_self)]
        dsimp only
        split <;> exact ⟨_, rfl⟩
    obtain ⟨nonDet, first⟩ := first
    rw [List.foldl_cons, first]
    obtain ⟨nonDet', rest⟩ := @ih { s with nonDetThds := nonDet }
      fun t' member => runnable t' (List.mem_cons_of_mem _ member)
    exact ⟨nonDet', rest⟩

/-- `check_wakeup` raises no flag that is down. -/
theorem checkWakeup_eq (sorted : s.Sorted) {order : List Tid}
    (perm : order.Perm s.interProWakeupTids) :
    ∃ nonDet, s.checkWakeup o order = { s with
      nonDetThds := nonDet, interProWakeupTids := [], interProWakeupFlag := false } := by
  unfold checkWakeup
  split
  · obtain ⟨nonDet, same⟩ := @foldl_bringBack_of_runnable o s tond order fun t member => by
      have outside := sorted.aside t (perm.mem_iff.mp member)
      exact Bool.of_not_eq_false fun down => outside ((sorted.flags t).mp down)
    exact ⟨nonDet, by rw [same]⟩
  · rename_i lowered
    have down := Bool.eq_false_iff.mpr lowered
    exact ⟨s.nonDetThds, by rw [← sorted.raised down, ← down]⟩

theorem incTurnCount_eq (sorted : s.Sorted) {order : List Tid}
    (perm : order.Perm s.interProWakeupTids) :
    ∃ nonDet, s.incTurnCount o order = { s with
      toCore := s.toCore.incTurnCount
      nonDetThds := nonDet, interProWakeupTids := [], interProWakeupFlag := false } := by
  have passed := passed_incTurnCount sorted.nodup none
  unfold incTurnCount
  rw [tickAndFire_eq tond sorted.nodup]
  have sorted' : Sorted { s with toCore := s.toCore.incTurnCount } :=
    ⟨passed.nodup, sorted.flags.passed passed,
      fun t member inside => sorted.aside t member (passed.kept.subset inside), sorted.raised⟩
  exact checkWakeup_eq tond sorted' perm

theorem checkNonDetBound_eq :
    ∃ nonDet, s.checkNonDetBound o = { s with nonDetThds := nonDet } := by
  unfold checkNonDetBound
  split
  · split
    · dsimp only
      rw [if_neg (by omega)]
      exact ⟨_, rfl⟩
    · exact ⟨_, rfl⟩
  · exact ⟨_, rfl⟩

theorem putTurn_eq (strategy : Strategy) :
    ∃ nonDet, s.putTurn o tid strategy = some { s with nonDetThds := nonDet } := by
  obtain ⟨nonDet, bound⟩ := @checkNonDetBound_eq o s tond
  unfold putTurn
  rw [if_neg (by omega), bound]
  exact ⟨nonDet, rfl⟩

theorem nextPop_eq : s.nextPop o tid = some s := if_neg (by omega)

theorem block_eq (sorted : s.Sorted) {order : List Tid} (perm : order.Perm s.interProWakeupTids) :
    ∃ nonDet, s.block o tid order = some { s with
      toCore := s.toCore.incTurnCount
      nonDetThds := nonDet, interProWakeupTids := [], interProWakeupFlag := false } := by
  have same : ∃ nonDet, s.enterNonDet o tid = { s with nonDetThds := nonDet } := by
    unfold enterNonDet
    split <;> exact ⟨_, rfl⟩
  obtain ⟨nonDet, entered⟩ := same
  have sorted' : Sorted { s with nonDetThds := nonDet } :=
    ⟨sorted.nodup, sorted.flags, sorted.aside, sorted.raised⟩
  obtain ⟨nonDet', counted⟩ := incTurnCount_eq tond sorted' perm
  refine ⟨nonDet', ?_⟩
  have posts : ¬ 0 ≤ o.enforceTurnType := by omega
  unfold block
  rw [entered, counted, nextPop_eq tond]
  simp only [Option.map_some, if_neg posts]

theorem finish_eq (nodup : s.waitq.Nodup) :
    ∃ nonDet, s.finish o tid = { s with toCore := s.toCore.finish tid, nonDetThds := nonDet } := by
  have joined : { s.signalJoiner o tid with tm := (s.signalJoiner o tid).tm.zombify tid } =
      { s with toCore := s.toCore.finish tid } := by
    unfold signalJoiner Core.finish
    cases s.tm.tToP tid with
    | none => rfl
    | some th =>
      dsimp only
      rw [signal_eq tond nodup]
  obtain ⟨nonDet, bound⟩ := @checkNonDetBound_eq o { s with toCore := s.toCore.finish tid } tond
  refine ⟨nonDet, ?_⟩
  unfold finish
  dsimp only
  rw [joined, bound]

end

end Sched

/-! ### What a step can do -/

/-- Where a thread can be in this mode. -/
def Pc.tond : Pc → Bool
  | .idling => false
  | .trying _ => false
  | .leaving .checking _ _ after => after != .idling
  | .leaving _ _ _ _ => false
  | .exited _ => false
  | _ => true

namespace Sys

/-- What an action signals. -/
def signals (s : Sys) (tid : Tid) : Action → Option Chan
  | .signal chan _ => some chan
  | .endThread _ => (s.sched.tm.tToP tid).map .thread
  | _ => none

/-- The arguments of `RRScheduler::wait` in an action. -/
def enters (s : Sys) : Action → Option (Option Chan × Nat)
  | .wait chan timeout _ => some (some chan, timeout)
  | .sleep turns _ => some (none, (s.sched.getTurnCount + turns) % unsignedMod)
  | _ => none

theorem signals_of_enters {s : Sys} {tid : Tid} {action : Action} {arguments : Option Chan × Nat}
    (isWait : s.enters action = some arguments) : s.signals tid action = none := by
  cases action <;> first | rfl | cases isWait

end Sys

/-- The thread enters `waitq` in this step, after the operations have led to the core `c`. -/
structure Enters (s : Sys) (tid : Tid) (action : Action) (s' : Sys) (c : Core) : Prop where
  here : s.pc tid = .turn false
  passed : Core.Passed (Roused none s'.sched.turnCount) s.sched.toCore c
  waitq : s'.sched.waitq = c.waitq ++ [tid]
  slot : ∃ chan timeout, s.enters action = some (chan, timeout) ∧
    s'.sched.waits = Function.update c.waits tid
      { c.waits tid with chan := chan, timeout := timeout, runnable := false }
  mayWait : (s'.pc tid).mayWait = true
  cleared : s'.sched.interProWakeupTids = []

/-- **What a step can do.** -/
structure TondStep (s : Sys) (tid : Tid) (action : Action) (s' : Sys) : Prop where
  alive : s.pc tid ≠ .dead
  awake : ∀ blocking, s.pc tid ≠ .waiting blocking
  own : (s'.pc tid).tond = true
  turns : ((s'.pc tid).inTurn = (s.pc tid).inTurn ∧ s'.sched.inSync = s.sched.inSync) ∨
    ((s.pc tid).inTurn = true ∧ (s'.pc tid).inTurn = false ∧ s'.sched.inSync = false)
  others : ∀ t, t ≠ tid → s'.pc t = s.pc t ∨
    (t = s.sched.tm.nthread ∧ s'.sched.tm.nthread = t + 1 ∧ s'.pc t = .away)
  grown : s.sched.tm.nthread ≤ s'.sched.tm.nthread
  queue : (s.enters action = none ∧
      Core.Passed (Roused (s.signals tid action) s'.sched.turnCount) s.sched.toCore s'.sched.toCore ∧
      ((s.pc tid).mayWait = true → (s'.pc tid).mayWait = true)) ∨
    ∃ c, Enters s tid action s' c
  aside : ∀ t ∈ s'.sched.interProWakeupTids, t ∈ s.sched.interProWakeupTids ∨
    (t = tid ∧ (s.pc tid).mayWait = false)
  raised : s'.sched.interProWakeupFlag = false → s'.sched.interProWakeupTids = []
  single : s'.sched.runq = s.sched.runq

namespace TondStep

variable {o : Options} {s s' : Sys} {tid : Tid} {action : Action}

/-- The turn holder goes on. -/
theorem hold (noWait : s.enters action = none) (here : (s.pc tid).inTurn = true)
    (mayWait : (s.pc tid).mayWait = false) {sched : Sched}
    {p : Pc} (inTurn : p.inTurn = true) (own : p.tond = true)
    (passed : Core.Passed (Roused (s.signals tid action) sched.turnCount) s.sched.toCore sched.toCore)
    (inSync : sched.inSync = s.sched.inSync) (nthread : sched.tm.nthread = s.sched.tm.nthread)
    (aside : sched.interProWakeupTids ⊆ s.sched.interProWakeupTids)
    (raised : sched.interProWakeupFlag = false → sched.interProWakeupTids = [])
    (single : sched.runq = s.sched.runq) : TondStep s tid action (s.goto tid sched p) where
  alive isDead := by rw [isDead] at here; cases here
  awake blocking isWaiting := by rw [isWaiting] at here; cases here
  own := by rwa [Sys.goto_pc_self]
  turns := Or.inl ⟨by rw [Sys.goto_pc_self, inTurn, here], inSync⟩
  others t other := Or.inl (Sys.goto_pc_of_ne other)
  grown := Nat.le_of_eq nthread.symm
  queue := Or.inl ⟨noWait, passed, fun may => by rw [mayWait] at may; cases may⟩
  aside t member := Or.inl (aside member)
  raised := raised
  single := single

/-- The turn holder enters `waitq`. -/
theorem enter (here : s.pc tid = .turn false) {sched : Sched} {c : Core} {chan : Option Chan}
    {timeout : Nat} (enters : s.enters action = some (chan, timeout))
    (passed : Core.Passed (Roused none sched.turnCount) s.sched.toCore c)
    (waitq : sched.waitq = c.waitq ++ [tid])
    (waits : sched.waits = Function.update c.waits tid
      { c.waits tid with chan := chan, timeout := timeout, runnable := false })
    (inSync : sched.inSync = s.sched.inSync) (nthread : sched.tm.nthread = s.sched.tm.nthread)
    (cleared : sched.interProWakeupTids = []) (single : sched.runq = s.sched.runq) :
    TondStep s tid action (s.goto tid sched (.leaving .checking false .default .getTurn)) where
  alive isDead := by rw [isDead] at here; cases here
  awake blocking isWaiting := by rw [isWaiting] at here; cases here
  own := by rw [Sys.goto_pc_self]; rfl
  turns := Or.inl ⟨by rw [Sys.goto_pc_self, here]; rfl, inSync⟩
  others t other := Or.inl (Sys.goto_pc_of_ne other)
  grown := Nat.le_of_eq nthread.symm
  queue := Or.inr ⟨c, here, passed, waitq, ⟨chan, timeout, enters, waits⟩,
    by rw [Sys.goto_pc_self]; rfl, cleared⟩
  aside t member := by rw [show (s.goto tid sched _).sched = sched from rfl, cleared] at member; cases member
  raised _ := cleared
  single := single

/-- A thread outside the turn moves. -/
theorem outside (noWait : s.enters action = none) (nodup : s.sched.waitq.Nodup) (alive : s.pc tid ≠ .dead)
    (awake : ∀ blocking, s.pc tid ≠ .waiting blocking) (here : (s.pc tid).inTurn = false)
    (mayWait : (s.pc tid).mayWait = false) {sched : Sched} {p : Pc} (inTurn : p.inTurn = false)
    (own : p.tond = true) (core : sched.toCore = s.sched.toCore)
    (inSync : sched.inSync = s.sched.inSync)
    (aside : ∀ t ∈ sched.interProWakeupTids, t ∈ s.sched.interProWakeupTids ∨ t = tid)
    (raised : sched.interProWakeupFlag = false → sched.interProWakeupTids = [])
    (single : sched.runq = s.sched.runq) : TondStep s tid action (s.goto tid sched p) where
  alive := alive
  awake := awake
  own := by rwa [Sys.goto_pc_self]
  turns := Or.inl ⟨by rw [Sys.goto_pc_self, inTurn, here], inSync⟩
  others t other := Or.inl (Sys.goto_pc_of_ne other)
  grown := Nat.le_of_eq (congrArg (fun c : Core => c.tm.nthread) core).symm
  queue := Or.inl ⟨noWait, by
    show Core.Passed _ s.sched.toCore sched.toCore
    rw [core]
    exact Core.Passed.refl _ nodup, fun may => by rw [mayWait] at may; cases may⟩
  aside t member := (aside t member).imp_right fun same => ⟨same, mayWait⟩
  raised := raised
  single := single

/-- The turn holder counts a turn and goes on. -/
theorem counted (noWait : s.enters action = none) (nodup : s.sched.waitq.Nodup) (here : (s.pc tid).inTurn = true)
    (mayWait : (s.pc tid).mayWait = false) {p : Pc} (inTurn : p.inTurn = true) (own : p.tond = true)
    {nonDet : NonDetSet} :
    TondStep s tid action (s.goto tid { s.sched with
      toCore := s.sched.toCore.incTurnCount
      nonDetThds := nonDet, interProWakeupTids := [], interProWakeupFlag := false } p) :=
  hold noWait here mayWait inTurn own (passed_incTurnCount nodup _) rfl rfl (List.nil_subset _)
    (fun _ => rfl) rfl

section Steps

variable (tond : o.enforceTurnType < 0) (sorted : s.sched.Sorted)
include tond sorted

/-- `RRScheduler::wait`. -/
theorem wait (here : s.pc tid = .turn false) {chan : Option Chan} {timeout : Nat} {order : List Tid}
    (perm : order.Perm s.sched.interProWakeupTids) (enters : s.enters action = some (chan, timeout)) :
    TondStep s tid action (s.leave tid (s.sched.wait o tid chan timeout order) false .default .getTurn) := by
  obtain ⟨nonDet, counted⟩ := Sched.incTurnCount_eq tond sorted perm
  unfold Sched.wait Sched.enterWaitq
  rw [counted, Sched.nextPop_eq tond]
  dsimp only
  rw [if_pos tond]
  refine enter here enters (passed_incTurnCount sorted.nodup none) rfl ?_ rfl rfl rfl rfl
  show Function.update (Function.update _ tid _) tid _ = _
  rw [Function.update_idem, Core.enqueue]
  dsimp only
  rw [Function.update_self]

/-- The end of a thread. -/
theorem endThread (here : s.pc tid = .turn false) {order : List Tid}
    (perm : order.Perm s.sched.interProWakeupTids) :
    TondStep s tid (.endThread order)
      (s.leave tid ((s.sched.incTurnCount o order).putTurnAtEnd o tid) true .default .dead) := by
  obtain ⟨nonDet, counted⟩ := Sched.incTurnCount_eq tond sorted perm
  have passed := passed_incTurnCount sorted.nodup (s.signals tid (.endThread order))
  have nodup : (s.sched.incTurnCount o order).waitq.Nodup := by
    rw [counted]
    exact passed.nodup
  obtain ⟨nonDet', finished⟩ := @Sched.finish_eq o (s.sched.incTurnCount o order) tid tond nodup
  unfold Sched.putTurnAtEnd
  rw [Sched.nextPop_eq tond, finished, counted]
  obtain ⟨sameCount, sameMap⟩ := s.sched.toCore.incTurnCount.finish_counts tid
  refine hold rfl (by rw [here]; rfl) (by rw [here]; rfl) rfl rfl ?_ rfl ?_ (List.nil_subset _)
    (fun _ => rfl) rfl
  · show Core.Passed (Roused _ (s.sched.toCore.incTurnCount.finish tid).turnCount) _ _
    rw [sameCount]
    exact passed_finish passed rfl
  · show (s.sched.toCore.incTurnCount.finish tid).tm.nthread = _
    rw [sameMap, TidMap.zombify_nthread]
    rfl

/-- A new thread. -/
theorem create (noWait : s.enters action = none) (here : s.pc tid = .turn false)
    (unborn : tid < s.sched.tm.nthread) (th : PthreadT)
    (threadFunc : ThreadFunc) :
    TondStep s tid action (s.goto s.sched.tm.nthread (s.sched.create o th threadFunc) .away) := by
  have other : tid ≠ s.sched.tm.nthread := Nat.ne_of_lt unborn
  have made : s.sched.create o th threadFunc = { s.sched with
      tm := s.sched.tm.create o.wakeamapPlus th threadFunc
      elems := Function.update s.sched.elems s.sched.tm.nthread {} } := if_neg (by omega)
  have same : (s.goto s.sched.tm.nthread (s.sched.create o th threadFunc) .away).pc tid = s.pc tid :=
    Sys.goto_pc_of_ne other
  rw [made] at same ⊢
  refine ⟨by rw [here]; nofun, fun _ => by rw [here]; nofun, by rw [same, here]; rfl,
    Or.inl ⟨by rw [same], rfl⟩, fun t _ => ?_, Nat.le_succ _,
    Or.inl ⟨noWait, Core.Passed.still sorted.nodup rfl rfl, fun may => by rwa [same]⟩,
    fun t member => Or.inl member, sorted.raised, rfl⟩
  by_cases new : t = s.sched.tm.nthread
  · subst new
    exact Or.inr ⟨rfl, rfl, Sys.goto_pc_self⟩
  · exact Or.inl (Sys.goto_pc_of_ne new)

/-- **The steps of the turn holder.** -/
theorem of_turnStep (single : s.sched.runq.numElements ≤ 1) (unborn : tid < s.sched.tm.nthread)
    (here : s.pc tid = .turn false) (stepped : s.turnStep o tid action = some s') :
    TondStep s tid action s' := by
  have inTurn : (s.pc tid).inTurn = true := by rw [here]; rfl
  have mayWait : (s.pc tid).mayWait = false := by rw [here]; rfl
  have stay : ∀ sched : Sched, { s with sched := sched } = s.goto tid sched (.turn false) := by
    intro sched
    rw [← here]
    unfold Sys.goto
    rw [Function.update_eq_self]
  cases action with
  | incTurnCount order =>
    obtain ⟨perm, rfl⟩ := Sys.turnStep_incTurnCount stepped
    obtain ⟨nonDet, isCounted⟩ := Sched.incTurnCount_eq tond sorted perm
    rw [stay, isCounted]
    exact counted rfl sorted.nodup inTurn mayWait rfl rfl
  | signal chan all =>
    cases stepped
    rw [stay, Sched.signal_eq tond sorted.nodup]
    exact hold rfl inTurn mayWait rfl rfl (passed_signal (Core.Passed.refl _ sorted.nodup) all) rfl rfl
      (List.Subset.refl _) sorted.raised rfl
  | create th threadFunc =>
    cases stepped
    exact create tond sorted rfl here unborn th threadFunc
  | changeRole th roleFunc =>
    cases stepped
    rw [stay]
    exact hold rfl inTurn mayWait rfl rfl (Core.Passed.still sorted.nodup rfl rfl) rfl
      (TidMap.changeRole_nthread _ _ _) (List.Subset.refl _) sorted.raised rfl
  | nonDetWait more =>
    cases stepped
    rw [stay]
    exact hold rfl inTurn mayWait rfl rfl (Core.Passed.refl _ sorted.nodup) rfl rfl (List.Subset.refl _)
      sorted.raised rfl
  | putTurn strategy =>
    cases stepped
    obtain ⟨nonDet, isPut⟩ := @Sched.putTurn_eq o s.sched tid tond strategy
    rw [isPut]
    exact hold rfl inTurn mayWait rfl rfl (Core.Passed.refl _ sorted.nodup) rfl rfl (List.Subset.refl _)
      sorted.raised rfl
  | endThread order =>
    obtain ⟨perm, rfl⟩ := Sys.turnStep_endThread stepped
    exact endThread tond sorted here perm
  | wait chan timeout order =>
    obtain ⟨perm, rfl⟩ := Sys.turnStep_wait stepped
    exact wait tond sorted here perm rfl
  | sleep turns order =>
    obtain ⟨enabled, rfl⟩ := Sys.turnStep_sleep stepped
    exact wait tond sorted here enabled.1 rfl
  | block order =>
    obtain ⟨perm, rfl⟩ := Sys.turnStep_block stepped
    obtain ⟨nonDet, blocked⟩ := @Sched.block_eq o s.sched tid tond sorted order perm
    rw [blocked]
    exact counted rfl sorted.nodup inTurn mayWait rfl rfl
  | idleCondWait order =>
    obtain ⟨enabled, taken⟩ := Sys.turnStep_idleCondWait stepped
    obtain ⟨nonDet, isCounted⟩ := Sched.incTurnCount_eq tond sorted enabled.1
    rw [isCounted] at taken
    obtain ⟨many, -⟩ | ⟨-, rfl⟩ := taken
    · exact absurd many (Nat.not_le_of_lt (Nat.lt_succ_of_le single))
    · obtain ⟨nonDet', isPut⟩ := @Sched.putTurn_eq o { s.sched with
        toCore := s.sched.toCore.incTurnCount
        nonDetThds := nonDet, interProWakeupTids := [], interProWakeupFlag := false } tid tond .default
      rw [isPut]
      exact counted rfl sorted.nodup inTurn mayWait rfl rfl
  | _ => cases stepped

/-- **The step inside `next`** lets go of the lock. -/
theorem of_leaveStep {phase : Phase} {atThreadEnd : Bool} {strategy : Strategy} {after : After}
    (here : s.pc tid = .leaving phase atThreadEnd strategy after) (own : (s.pc tid).tond = true)
    (stepped : s.leaveStep o tid phase atThreadEnd strategy after action = some s') :
    TondStep s tid action s' := by
  have isChecking : phase = .checking ∧ after ≠ .idling := by
    rw [here] at own
    cases phase with
    | checking => exact ⟨rfl, fun isIdling => by subst isIdling; cases own⟩
    | _ => cases own
  obtain ⟨rfl, notIdling⟩ := isChecking
  cases action with
  | checkWakeup order =>
    obtain ⟨⟨-, perm⟩, ⟨nonneg, -⟩ | ⟨-, left⟩⟩ := Sys.leaveStep_checkWakeup_cases stepped
    · omega
    · obtain ⟨nonDet, checked⟩ := Sched.checkWakeup_eq tond sorted perm
      rw [checked] at left
      subst left
      have out : after.pc.inTurn = false := by cases after <;> rfl
      refine ⟨by rw [here]; nofun, fun _ => by rw [here]; nofun, ?_,
        Or.inr ⟨by rw [here]; rfl, by rw [Sys.goto_pc_self, out], rfl⟩,
        fun t other => Or.inl (Sys.goto_pc_of_ne other), Nat.le_refl _,
        Or.inl ⟨rfl, Core.Passed.refl _ sorted.nodup, fun may => ?_⟩, fun t member => ?_, fun _ => rfl, rfl⟩
      · rw [Sys.goto_pc_self]
        cases after with
        | idling => exact absurd rfl notIdling
        | _ => rfl
      · rw [Sys.goto_pc_self]
        rw [here] at may
        cases after <;> exact may
      · cases member
  | nextRunnable => cases stepped
  | post => cases stepped
  | _ => cases stepped

omit tond in
/-- **The steps outside the scheduler.** -/
theorem of_awayStep (here : s.pc tid = .away ∨ s.pc tid = .woken)
    (stepped : s.awayStep tid action = some s') : TondStep s tid action s' := by
  have place : s.pc tid ≠ .dead ∧ (∀ blocking, s.pc tid ≠ .waiting blocking) ∧
      (s.pc tid).inTurn = false ∧ (s.pc tid).mayWait = false ∧ (s.pc tid).tond = true := by
    rcases here with here | here <;> rw [here] <;> exact ⟨nofun, nofun, rfl, rfl, rfl⟩
  obtain ⟨alive, awake, outTurn, mayWait, own⟩ := place
  cases action with
  | getTurn =>
    cases stepped
    exact outside rfl sorted.nodup alive awake outTurn mayWait rfl rfl rfl rfl
      (fun t member => Or.inl member) sorted.raised rfl
  | interProStart =>
    cases stepped
    have same : ∃ elems, (s.sched.interProStart tid).2 = { s.sched with elems := elems } := by
      unfold Sched.interProStart
      split <;> exact ⟨_, rfl⟩
    obtain ⟨elems, same⟩ := same
    have out : ∀ isHead : Bool, (if isHead then Pc.waiting true else .inCall).inTurn = false ∧
        (if isHead then Pc.waiting true else .inCall).tond = true := by decide
    rw [same]
    exact outside rfl sorted.nodup alive awake outTurn mayWait (out _).1 (out _).2 rfl rfl
      (fun t member => Or.inl member) sorted.raised rfl
  | progEnd =>
    simp only [Sys.awayStep] at stepped
    split at stepped
    · cases stepped
      exact ⟨alive, awake, own, Or.inl ⟨rfl, rfl⟩, fun _ _ => Or.inl rfl, Nat.le_refl _,
        Or.inl ⟨rfl, Core.Passed.refl _ sorted.nodup, id⟩, fun _ member => Or.inl member, sorted.raised, rfl⟩
    · cases stepped
  | _ => cases stepped

omit tond in
/-- `wakeup`. -/
theorem wakeup (noWait : s.enters action = none) (alive : s.pc tid ≠ .dead)
    (awake : ∀ blocking, s.pc tid ≠ .waiting blocking)
    (outTurn : (s.pc tid).inTurn = false) (mayWait : (s.pc tid).mayWait = false) :
    TondStep s tid action (s.goto tid (s.sched.wakeup tid) .woken) := by
  refine outside noWait sorted.nodup alive awake outTurn mayWait rfl rfl rfl rfl (fun t member => ?_)
    (fun lowered => nomatch lowered) rfl
  unfold Sched.wakeup at member
  dsimp only at member
  split at member
  · exact Or.inl member
  · exact (List.mem_append.mp member).imp_right List.mem_singleton.mp

/-- **Every step is like that**, the two of `wait_t::wait` apart. -/
theorem of_step (single : s.sched.runq.numElements ≤ 1)
    (unborn : ∀ t, s.sched.tm.nthread ≤ t → s.pc t = .dead) (own : (s.pc tid).tond = true)
    (notGot : action ≠ .gotTurn) (stepped : s.step o (tid, action) = some s') :
    TondStep s tid action s' := by
  replace stepped := Sys.threadStep_of_step stepped
  unfold Sys.threadStep at stepped
  split at stepped
  · rename_i here
    exact of_awayStep sorted (Or.inl here) stepped
  · rename_i here
    exact of_awayStep sorted (Or.inr here) stepped
  · rename_i here
    rw [here] at own
    cases own
  · rename_i here
    cases stepped
    exact wakeup sorted rfl (by rw [here]; nofun) (by rw [here]; nofun) (by rw [here]; rfl) (by rw [here]; rfl)
  · rename_i here
    cases stepped
    exact outside rfl sorted.nodup (by rw [here]; nofun) (by rw [here]; nofun) (by rw [here]; rfl)
      (by rw [here]; rfl) rfl rfl rfl rfl (fun t member => Or.inl member) sorted.raised rfl
  · rename_i here
    cases stepped
    exact wakeup sorted rfl (by rw [here]; nofun) (by rw [here]; nofun) (by rw [here]; rfl) (by rw [here]; rfl)
  · exact absurd rfl notGot
  · rename_i here
    have born : tid < s.sched.tm.nthread := by
      by_contra late
      rw [unborn tid (Nat.le_of_not_lt late)] at here
      cases here
    exact of_turnStep tond sorted single born here stepped
  · rename_i here
    split at stepped
    · rename_i perm
      cases stepped
      obtain ⟨nonDet, blocked⟩ := @Sched.block_eq o s.sched tid tond sorted _ perm
      rw [blocked]
      exact counted rfl sorted.nodup (by rw [here]; rfl) (by rw [here]; rfl) rfl rfl
    · cases stepped
  · rename_i here
    rw [here] at own
    cases own
  · rename_i here
    exact of_leaveStep tond sorted here own stepped
  · cases stepped

end Steps

end TondStep

/-! ### Every run -/

namespace Tond

variable {o : Options} {s s' : Tond} {tid : Tid}

/-- **The invariant of this mode.** -/
structure Safe (s : Tond) : Prop where
  sorted : s.sys.sched.Sorted
  single : s.sys.sched.runq.numElements ≤ 1
  unborn : ∀ t, s.sys.sched.tm.nthread ≤ t → s.sys.pc t = .dead
  own : ∀ t, (s.sys.pc t).tond = true
  one : ∃ holder : Option Tid, (∀ t, (s.sys.pc t).inTurn = true ↔ holder = some t) ∧
    s.sys.sched.inSync = holder.isSome
  ready : ∀ t, s.ready t = true → t ∉ s.sys.sched.waitq ∧ ∃ blocking, s.sys.pc t = .waiting blocking
  parked : ∀ t ∈ s.sys.sched.waitq, (s.sys.pc t).mayWait = true

namespace Safe

/-- The lock has at most one owner, who keeps it or lets it go. -/
theorem one_step {sys : Sys} {action : Action} (safe : s.Safe) (stepped : TondStep s.sys tid action sys) :
    ∃ holder : Option Tid, (∀ t, (sys.pc t).inTurn = true ↔ holder = some t) ∧
      sys.sched.inSync = holder.isSome := by
  obtain ⟨holder, isHolder, locked⟩ := safe.one
  have others : ∀ t, t ≠ tid → (sys.pc t).inTurn = (s.sys.pc t).inTurn := by
    intro t other
    rcases stepped.others t other with same | ⟨isNew, -, isAway⟩
    · rw [same]
    · rw [isAway, safe.unborn t (Nat.le_of_eq isNew.symm)]
      rfl
  rcases stepped.turns with ⟨same, sameLock⟩ | ⟨before, after, free⟩
  · refine ⟨holder, fun t => ?_, sameLock.trans locked⟩
    rw [← isHolder t]
    by_cases own : t = tid
    · rw [own, same]
    · rw [others t own]
  · have mine : holder = some tid := (isHolder tid).mp before
    refine ⟨none, fun t => iff_of_false (fun inTurn => ?_) nofun, free⟩
    by_cases own : t = tid
    · rw [own, after] at inTurn
      cases inTurn
    · rw [others t own, isHolder t, mine] at inTurn
      exact own (Option.some.inj inTurn).symm

/-- The threads in `waitq` are those whose flag is down, and they stand where they may wait. -/
theorem queue_step {sys : Sys} {action : Action} (safe : s.Safe)
    (stepped : TondStep s.sys tid action sys) :
    sys.sched.Sorted ∧ (∀ t ∈ sys.sched.waitq, (sys.pc t).mayWait = true) ∧
      ∀ t ∈ sys.sched.waitq, t ∈ s.sys.sched.waitq ∨ s.sys.pc t = .turn false := by
  have parked : ∀ t ∈ s.sys.sched.waitq, t ≠ tid → (sys.pc t).mayWait = true := by
    intro t inside other
    rcases stepped.others t other with same | ⟨isNew, -, -⟩
    · rw [same]
      exact safe.parked t inside
    · have may := safe.parked t inside
      rw [safe.unborn t (Nat.le_of_eq isNew.symm)] at may
      cases may
  rcases stepped.queue with ⟨-, passed, stays⟩ | ⟨c, enters⟩
  · refine ⟨⟨passed.nodup, safe.sorted.flags.passed passed, fun t member inside => ?_, stepped.raised⟩,
      fun t inside => ?_, fun t inside => Or.inl (passed.kept.subset inside)⟩
    · have before := passed.kept.subset inside
      rcases stepped.aside t member with old | ⟨rfl, mayNot⟩
      · exact safe.sorted.aside t old before
      · rw [safe.parked t before] at mayNot
        cases mayNot
    · have before := passed.kept.subset inside
      by_cases own : t = tid
      · subst own
        exact stays (safe.parked t before)
      · exact parked t before own
  · have passed := enters.passed
    obtain ⟨chan, timeout, -, slot⟩ := enters.slot
    have fresh : tid ∉ c.waitq := by
      intro inside
      have may := safe.parked tid (passed.kept.subset inside)
      rw [enters.here] at may
      cases may
    have flags := safe.sorted.flags.passed passed
    have mem : ∀ t, t ∈ sys.sched.waitq ↔ t ∈ c.waitq ∨ t = tid := by
      intro t
      rw [enters.waitq, List.mem_append, List.mem_singleton]
    refine ⟨⟨?_, fun t => ?_, ?_, stepped.raised⟩, fun t inside => ?_, fun t inside => ?_⟩
    · rw [enters.waitq]
      exact passed.nodup.append (List.nodup_singleton tid)
        fun t inside isTid => fresh (List.mem_singleton.mp isTid ▸ inside)
    · rw [mem]
      show (sys.sched.waits t).runnable = false ↔ _
      rw [slot]
      by_cases own : t = tid
      · subst own
        rw [Function.update_self]
        exact iff_of_true rfl (Or.inr rfl)
      · rw [Function.update_of_ne own, flags t]
        exact ⟨Or.inl, fun either => either.resolve_right own⟩
    · rw [enters.cleared]
      exact fun t member => nomatch member
    · by_cases own : t = tid
      · subst own
        exact enters.mayWait
      · exact parked t (passed.kept.subset (((mem t).mp inside).resolve_right own)) own
    · by_cases own : t = tid
      · subst own
        exact Or.inr enters.here
      · exact Or.inl (passed.kept.subset (((mem t).mp inside).resolve_right own))

/-- A step outside `wait_t::wait` keeps the invariant. -/
theorem act {sys : Sys} {action : Action} (safe : s.Safe) (stepped : TondStep s.sys tid action sys) :
    Safe { s with sys := sys } := by
  obtain ⟨sorted, parked, entered⟩ := safe.queue_step stepped
  refine ⟨sorted, ?_, fun t late => ?_, fun t => ?_, safe.one_step stepped, fun t isReady => ?_, parked⟩
  · show sys.sched.runq.numElements ≤ 1
    rw [stepped.single]
    exact safe.single
  · have before := safe.unborn t (stepped.grown.trans late)
    have other : t ≠ tid := fun same => stepped.alive (same ▸ before)
    rcases stepped.others t other with same | ⟨-, next, -⟩
    · exact same.trans before
    · have after : sys.sched.tm.nthread ≤ t := late
      omega
  · by_cases own : t = tid
    · subst own
      exact stepped.own
    · rcases stepped.others t own with same | ⟨-, -, isAway⟩
      · show (sys.pc t).tond = true
        rw [same]
        exact safe.own t
      · show (sys.pc t).tond = true
        rw [isAway]
        rfl
  · obtain ⟨outside, blocking, isWaiting⟩ := safe.ready t isReady
    have other : t ≠ tid := fun same => stepped.awake blocking (same ▸ isWaiting)
    refine ⟨fun inside => ?_, blocking, ?_⟩
    · rcases entered t inside with before | isTurn
      · exact outside before
      · rw [isWaiting] at isTurn
        cases isTurn
    · rcases stepped.others t other with same | ⟨isNew, -, -⟩
      · exact same.trans isWaiting
      · rw [safe.unborn t (Nat.le_of_eq isNew.symm)] at isWaiting
        cases isWaiting

end Safe

/-- **The steps of this mode.** -/
theorem step_cases (tond : o.enforceTurnType < 0) (safe : s.Safe) {label : Tid × Move}
    (stepped : s.step o label = some s') :
    (∃ blocking, label.2 = .read ∧ s.sys.pc label.1 = .waiting blocking ∧
      label.1 ∉ s.sys.sched.waitq ∧
      s' = { s with ready := Function.update s.ready label.1 true }) ∨
    (∃ blocking, label.2 = .swap ∧ s.sys.pc label.1 = .waiting blocking ∧ s.ready label.1 = true ∧
      s.sys.sched.inSync = false ∧
      s' = { sys := s.sys.goto label.1 { s.sys.sched with inSync := true } (.turn blocking)
             ready := Function.update s.ready label.1 false }) ∨
    ∃ action sys, label.2 = .act action ∧ TondStep s.sys label.1 action sys ∧
      s' = { s with sys := sys } := by
  obtain ⟨tid, move⟩ := label
  unfold step at stepped
  dsimp only at stepped ⊢
  split at stepped
  · rename_i blocking here
    split at stepped
    · rename_i runnable
      cases stepped
      refine Or.inl ⟨blocking, rfl, here, fun inside => ?_, rfl⟩
      rw [(safe.sorted.flags tid).mpr inside] at runnable
      cases runnable
    · cases stepped
  · rename_i blocking here
    split at stepped
    · rename_i enabled
      cases stepped
      exact Or.inr (Or.inl ⟨blocking, rfl, here, enabled.1, enabled.2, rfl⟩)
    · cases stepped
  · rename_i action
    split at stepped
    · cases stepped
    · rename_i notGot
      obtain ⟨sys, moved, rfl⟩ := Option.map_eq_some_iff.mp stepped
      exact Or.inr (Or.inr ⟨action, sys, rfl,
        TondStep.of_step tond safe.sorted safe.single safe.unborn (safe.own tid) notGot moved, rfl⟩)
  · cases stepped

/-- A thread takes the lock. -/
theorem Safe.swap {blocking : Bool} (safe : s.Safe) (here : s.sys.pc tid = .waiting blocking)
    (isReady : s.ready tid = true) (free : s.sys.sched.inSync = false) :
    Safe { sys := s.sys.goto tid { s.sys.sched with inSync := true } (.turn blocking)
           ready := Function.update s.ready tid false } := by
  obtain ⟨holder, isHolder, locked⟩ := safe.one
  have nobody : holder = none := by
    cases holder with
    | none => rfl
    | some t =>
      rw [free] at locked
      cases locked
  obtain ⟨outside, -⟩ := safe.ready tid isReady
  refine ⟨⟨safe.sorted.nodup, safe.sorted.flags, safe.sorted.aside, safe.sorted.raised⟩, safe.single,
    fun t late => ?_, fun t => ?_, ⟨some tid, fun t => ?_, rfl⟩, fun t stillReady => ?_, fun t inside => ?_⟩
  all_goals by_cases own : t = tid
  · subst own
    rw [safe.unborn t late] at here
    cases here
  · exact (Sys.goto_pc_of_ne own).trans (safe.unborn t late)
  · subst own
    rw [Sys.goto_pc_self]
    rfl
  · rw [Sys.goto_pc_of_ne own]
    exact safe.own t
  · subst own
    rw [Sys.goto_pc_self]
    exact iff_of_true rfl rfl
  · rw [Sys.goto_pc_of_ne own, isHolder t, nobody]
    exact iff_of_false nofun fun same => own (Option.some.inj same).symm
  · subst own
    have before : Function.update s.ready t false t = true := stillReady
    rw [Function.update_self] at before
    cases before
  · have before : Function.update s.ready tid false t = true := stillReady
    rw [Function.update_of_ne own] at before
    rw [Sys.goto_pc_of_ne own]
    exact safe.ready t before
  · exact absurd (own ▸ inside) outside
  · rw [Sys.goto_pc_of_ne own]
    exact safe.parked t inside

/-- **Every step keeps the invariant.** -/
theorem Safe.step (tond : o.enforceTurnType < 0) (safe : s.Safe) {label : Tid × Move}
    (stepped : s.step o label = some s') : s'.Safe := by
  rcases step_cases tond safe stepped with ⟨blocking, -, here, outside, rfl⟩ |
    ⟨blocking, -, here, isReady, free, rfl⟩ | ⟨action, sys, -, moved, rfl⟩
  · refine ⟨safe.sorted, safe.single, safe.unborn, safe.own, safe.one, fun t isReady => ?_, safe.parked⟩
    by_cases own : t = label.1
    · subst own
      exact ⟨outside, blocking, here⟩
    · have before : Function.update s.ready label.1 true t = true := isReady
      rw [Function.update_of_ne own] at before
      exact safe.ready t before
  · exact safe.swap here isReady free
  · exact safe.act moved

theorem Safe.initial (tond : o.enforceTurnType < 0) (mainTh : PthreadT) : (init o mainTh).Safe := by
  have post : WaitT.post o {} = {} := by
    unfold WaitT.post
    rw [if_neg (by omega), if_neg (by omega), if_pos tond]
  have posted : (init o mainTh).sys.sched.waits = fun _ => {} := by
    show Function.update (fun _ => ({} : WaitT)) mainThreadTid (WaitT.post o {}) = _
    rw [post]
    exact Function.update_eq_self _ _
  have places : ∀ t, (init o mainTh).sys.pc t = if t = mainThreadTid then .away else .dead := by
    intro t
    show Function.update (fun _ => Pc.dead) mainThreadTid .away t = _
    exact Function.update_apply _ _ _ _
  refine ⟨⟨List.nodup_nil, fun t => ?_, nofun, fun _ => rfl⟩, Nat.le_refl _, fun t late => ?_, fun t => ?_,
    ⟨none, fun t => ?_, rfl⟩, nofun, nofun⟩
  · rw [posted]
    exact iff_of_false nofun nofun
  · have other : t ≠ mainThreadTid := by
      rintro rfl
      have born : 1 ≤ mainThreadTid := late
      exact absurd born (by decide)
    rw [places, if_neg other]
  · rw [places]
    split <;> rfl
  · rw [places]
    split <;> exact iff_of_false nofun nofun

theorem Safe.run (tond : o.enforceTurnType < 0) {mainTh : PthreadT} {labels : List (Tid × Move)}
    (ran : exec (Tond.step o) (init o mainTh) labels = some s) : s.Safe := by
  refine exec_invariant Safe (fun s label next safe _ stepped => safe.step tond stepped)
    (Safe.initial tond mainTh) (along_of_labels (fun _ _ => trivial) _) ran

/-! ### How a thread gets out of `wait` -/

/-- What a step of anyone does to a thread in `wait`. -/
theorem wait_step (tond : o.enforceTurnType < 0) (safe : s.Safe) (may : (s.sys.pc tid).mayWait = true)
    {label : Tid × Move} (notMine : label ≠ (tid, .swap)) (stepped : s.step o label = some s') :
    (s'.sys.pc tid).mayWait = true ∧
    (tid ∉ s.sys.sched.waitq → tid ∉ s'.sys.sched.waitq ∧
      s'.sys.sched.waits tid = s.sys.sched.waits tid) ∧
    (tid ∈ s.sys.sched.waitq → (tid ∈ s'.sys.sched.waitq ∧
        s'.sys.sched.waits tid = s.sys.sched.waits tid) ∨
      (tid ∉ s'.sys.sched.waitq ∧ ∃ action, label.2 = .act action ∧
        Roused (s.sys.signals label.1 action) s'.sys.sched.turnCount (s.sys.sched.waits tid)
          (s'.sys.sched.waits tid))) := by
  rcases step_cases tond safe stepped with ⟨blocking, -, here, outside, rfl⟩ |
    ⟨blocking, isSwap, here, isReady, free, rfl⟩ | ⟨action, sys, isAct, moved, rfl⟩
  · exact ⟨may, fun out => ⟨out, rfl⟩, fun inside => Or.inl ⟨inside, rfl⟩⟩
  · have other : tid ≠ label.1 := fun same => notMine (Prod.ext same.symm isSwap)
    refine ⟨?_, fun out => ⟨out, rfl⟩, fun inside => Or.inl ⟨inside, rfl⟩⟩
    rw [Sys.goto_pc_of_ne other]
    exact may
  · have still : (sys.pc tid).mayWait = true ∧ (tid = label.1 → s.sys.pc label.1 ≠ .turn false) := by
      by_cases own : tid = label.1
      · have notTurn : s.sys.pc label.1 ≠ .turn false := by
          intro isTurn
          rw [own, isTurn] at may
          cases may
        refine ⟨?_, fun _ => notTurn⟩
        rcases moved.queue with ⟨-, -, stays⟩ | ⟨c, enters⟩
        · rw [own] at may ⊢
          exact stays may
        · exact absurd enters.here notTurn
      · refine ⟨?_, fun same => absurd same own⟩
        rcases moved.others tid own with same | ⟨isNew, -, -⟩
        · rw [same]
          exact may
        · rw [safe.unborn tid (Nat.le_of_eq isNew.symm)] at may
          cases may
    refine ⟨still.1, ?_⟩
    rcases moved.queue with ⟨-, passed, -⟩ | ⟨c, enters⟩
    · refine ⟨fun out => ⟨fun inside => out (passed.kept.subset inside), passed.same tid (Or.inr out)⟩,
        fun inside => ?_⟩
      by_cases stays : tid ∈ sys.sched.waitq
      · exact Or.inl ⟨stays, passed.same tid (Or.inl stays)⟩
      · exact Or.inr ⟨stays, action, isAct, passed.gone tid inside stays⟩
    · have other : tid ≠ label.1 := fun same => still.2 same enters.here
      have passed := enters.passed
      obtain ⟨chan, timeout, isWait, slot⟩ := enters.slot
      have same : sys.sched.waits tid = c.waits tid := by rw [slot, Function.update_of_ne other]
      have mem : tid ∈ sys.sched.waitq ↔ tid ∈ c.waitq := by
        rw [enters.waitq, List.mem_append, List.mem_singleton]
        exact ⟨fun either => either.resolve_right other, Or.inl⟩
      dsimp only
      rw [mem, same]
      refine ⟨fun out => ⟨fun inside => out (passed.kept.subset inside), passed.same tid (Or.inr out)⟩,
        fun inside => ?_⟩
      by_cases stays : tid ∈ c.waitq
      · exact Or.inl ⟨stays, passed.same tid (Or.inl stays)⟩
      · refine Or.inr ⟨stays, action, isAct, ?_⟩
        rw [Sys.signals_of_enters isWait]
        exact passed.gone tid inside stays

/-- Among these steps is one that took the thread out of `waitq`, for this reason: by a signal on what it
waited for, or because its deadline was before the turn count. -/
def TakenOut (o : Options) (tid : Tid) (chan : Option Chan) (timeout : Nat) (entered : Tond)
    (labels : List (Tid × Move)) (reason : WakeReason) : Prop :=
  ∃ first t action second before after, labels = first ++ (t, .act action) :: second ∧
    exec (step o) entered first = some before ∧ before.step o (t, .act action) = some after ∧
    tid ∈ before.sys.sched.waitq ∧ tid ∉ after.sys.sched.waitq ∧
    ((reason = .signal ∧ chan.isSome = true ∧ before.sys.signals t action = chan) ∨
      (reason = .timedout ∧ timeout < after.sys.sched.turnCount))

/-- A thread that has left `waitq` stays out, until it has the turn. -/
theorem stays_out (tond : o.enforceTurnType < 0) {later : Tond} {labels : List (Tid × Move)}
    (safe : s.Safe) (may : (s.sys.pc tid).mayWait = true) (out : tid ∉ s.sys.sched.waitq)
    (quiet : (tid, .swap) ∉ labels) (ran : exec (step o) s labels = some later) :
    later.sys.sched.waits tid = s.sys.sched.waits tid := by
  induction labels generalizing s with
  | nil =>
    cases ran
    rfl
  | cons label labels ih =>
    obtain ⟨next, moved, rest⟩ := exec_cons ran
    obtain ⟨notMine, others⟩ := List.ne_and_not_mem_of_not_mem_cons quiet
    obtain ⟨may', stays, -⟩ := wait_step tond safe may notMine.symm moved
    obtain ⟨out', same⟩ := stays out
    rw [ih (safe.step tond moved) may' out' others rest, same]

/-- **A thread in `wait` is in `waitq` until a step takes it out.** -/
theorem waits_or_taken_out (tond : o.enforceTurnType < 0) {later : Tond} {labels : List (Tid × Move)}
    (safe : s.Safe) (may : (s.sys.pc tid).mayWait = true) (inside : tid ∈ s.sys.sched.waitq)
    (quiet : (tid, .swap) ∉ labels) (ran : exec (step o) s labels = some later) :
    tid ∈ later.sys.sched.waitq ∨
      TakenOut o tid (s.sys.sched.waits tid).chan (s.sys.sched.waits tid).timeout s labels
        (later.sys.sched.waits tid).wakeReason := by
  induction labels generalizing s with
  | nil =>
    cases ran
    exact Or.inl inside
  | cons label labels ih =>
    obtain ⟨next, moved, rest⟩ := exec_cons ran
    obtain ⟨notMine, others⟩ := List.ne_and_not_mem_of_not_mem_cons quiet
    obtain ⟨may', -, either⟩ := wait_step tond safe may notMine.symm moved
    have safe' := safe.step tond moved
    rcases either inside with ⟨inside', same⟩ | ⟨out, action, isAct, -, why⟩
    · rcases ih safe' may' inside' others rest with still | ⟨first, t, action, second, before, after,
        split, led, taken⟩
      · exact Or.inl still
      · rw [same] at taken
        refine Or.inr ⟨label :: first, t, action, second, before, after, by rw [split]; rfl, ?_, taken⟩
        show (s.step o label).bind _ = _
        rw [moved]
        exact led
    · have slot := stays_out tond safe' may' out others rest
      refine Or.inr ⟨[], label.1, action, labels, s, next, ?_, rfl, ?_, inside, out, ?_⟩
      · rw [← isAct]
        rfl
      · rw [← isAct]
        exact moved
      · rw [slot]
        rcases why with ⟨signalled, isSome, isChan⟩ | late
        · exact Or.inl ⟨signalled, isSome, isChan.symm⟩
        · exact Or.inr late

/-- **The mode without run queues.** After any run: at most one thread is between its compare-exchange and
the store that lets go of the lock; when nobody has the lock, the threads in `waitq`, each of them once, are
those whose flag is down; and a thread that calls `wait` here and gets the turn again was taken out of
`waitq` in between, for the reason that `wait` returns. -/
theorem tond_sync (o : Options) (tond : o.enforceTurnType < 0) (mainTh : PthreadT)
    (labels : List (Tid × Move)) (s : Tond)
    (ran : exec (step o) (init o mainTh) labels = some s) :
    (∀ t t', (s.sys.pc t).inTurn = true → (s.sys.pc t').inTurn = true → t = t') ∧
    (s.sys.sched.inSync = true ↔ ∃ t, (s.sys.pc t).inTurn = true) ∧
    (s.sys.sched.inSync = false → s.sys.sched.waitq.Nodup ∧
      ∀ t, (s.sys.sched.waits t).runnable = false ↔ t ∈ s.sys.sched.waitq) ∧
    ∀ tid action chan timeout, s.sys.enters action = some (chan, timeout) →
      ∀ entered, s.step o (tid, .act action) = some entered →
      ∀ middle later regained, exec (step o) entered middle = some later → (tid, .swap) ∉ middle →
        later.step o (tid, .swap) = some regained →
        TakenOut o tid chan timeout entered middle (regained.sys.sched.waits tid).wakeReason := by
  have safe := Safe.run tond ran
  obtain ⟨holder, isHolder, locked⟩ := safe.one
  refine ⟨fun t t' first second => ?_, ?_, fun _ => ⟨safe.sorted.nodup, safe.sorted.flags⟩, ?_⟩
  · have same := ((isHolder t).mp first).symm.trans ((isHolder t').mp second)
    exact Option.some.inj same
  · rw [locked, Option.isSome_iff_exists]
    exact exists_congr fun t => (isHolder t).symm
  · intro tid action chan timeout isWait entered moved middle later regained led quiet swapped
    have safe' := safe.step tond moved
    obtain ⟨may, inside, isChan, isTimeout⟩ : (entered.sys.pc tid).mayWait = true ∧
        tid ∈ entered.sys.sched.waitq ∧ (entered.sys.sched.waits tid).chan = chan ∧
        (entered.sys.sched.waits tid).timeout = timeout := by
      rcases step_cases tond safe moved with ⟨-, isRead, -⟩ | ⟨-, isSwap, -⟩ | ⟨_, sys, isAct, enters, rfl⟩
      · cases isRead
      · cases isSwap
      · cases isAct
        rcases enters.queue with ⟨noWait, -⟩ | ⟨c, enters⟩
        · rw [isWait] at noWait
          cases noWait
        · obtain ⟨chan', timeout', isWait', slot⟩ := enters.slot
          rw [isWait] at isWait'
          cases isWait'
          refine ⟨enters.mayWait, ?_, ?_, ?_⟩
          · show tid ∈ sys.sched.waitq
            rw [enters.waitq]
            exact List.mem_append_right _ (List.mem_singleton_self tid)
          · show (sys.sched.waits tid).chan = _
            rw [slot, Function.update_self]
          · show (sys.sched.waits tid).timeout = _
            rw [slot, Function.update_self]
    have safe'' : later.Safe := exec_invariant Safe (fun s label next safe _ stepped => safe.step tond stepped)
      safe' (along_of_labels (fun _ _ => trivial) _) led
    have kept := waits_or_taken_out tond safe' may inside quiet led
    rw [isChan, isTimeout] at kept
    rcases step_cases tond safe'' swapped with ⟨-, isRead, -⟩ | ⟨blocking, -, -, isReady, -, rfl⟩ |
      ⟨_, _, isAct, -⟩
    · cases isRead
    · exact kept.resolve_left (safe''.ready tid isReady).1
    · cases isAct

/-- `getTurn`, in the steps of this mode. -/
def enter (tid : Tid) : List (Tid × Move) := [(tid, .act .getTurn), (tid, .read), (tid, .swap)]

/-- The main thread creates threads `1` and `2`, and thread `2` takes the turn. -/
def twoThreads : List (Tid × Move) :=
  enter 0 ++ [(0, .act (.create 101 1)), (0, .act (.create 102 3)), (0, .act (.putTurn .default)),
    (0, .act (.checkWakeup []))] ++ enter 2

/-- The main thread signals the condition variable `9`, on which thread `2` waits. -/
def signalNine : List (Tid × Move) :=
  [(2, .act (.checkWakeup []))] ++ enter 0 ++ [(0, .act (.signal (.cond 9) false)),
    (0, .act (.putTurn .default)), (0, .act (.checkWakeup [])), (2, .read)]

theorem tond_sync_signalNine :
    ∃ s entered later regained,
      exec (step { enforceTurnType := -1 }) (init { enforceTurnType := -1 } 100) twoThreads = some s ∧
      s.step { enforceTurnType := -1 } (2, .act (.wait (.cond 9) forever [])) = some entered ∧
      exec (step { enforceTurnType := -1 }) entered signalNine = some later ∧
      later.step { enforceTurnType := -1 } (2, .swap) = some regained ∧
      (regained.sys.sched.waits 2).wakeReason = .signal ∧
      TakenOut { enforceTurnType := -1 } 2 (some (.cond 9)) forever entered signalNine .signal := by
  have found : (exec (step { enforceTurnType := -1 }) (init { enforceTurnType := -1 } 100)
      twoThreads).any (fun s => (s.step { enforceTurnType := -1 }
        (2, .act (.wait (.cond 9) forever []))).any fun entered =>
          (exec (step { enforceTurnType := -1 }) entered signalNine).any fun later =>
            (later.step { enforceTurnType := -1 } (2, .swap)).any fun regained =>
              decide ((regained.sys.sched.waits 2).wakeReason = .signal)) = true := by
    decide +kernel
  obtain ⟨s, ran, found⟩ := exec_of_any found
  obtain ⟨entered, moved, found⟩ := (Option.any_eq_true _ _).mp found
  obtain ⟨later, led, found⟩ := exec_of_any found
  obtain ⟨regained, swapped, found⟩ := (Option.any_eq_true _ _).mp found
  have reason := of_decide_eq_true found
  obtain ⟨-, -, -, wakes⟩ := tond_sync { enforceTurnType := -1 } (by decide) 100 twoThreads s ran
  have taken := wakes 2 _ _ _ rfl entered moved signalNine later regained led (by decide) swapped
  rw [reason] at taken
  exact ⟨s, entered, later, regained, ran, moved, led, swapped, reason, taken⟩

end Tond

end MinSmt
