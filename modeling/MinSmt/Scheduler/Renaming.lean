/-
**The scheduler under other handles** (`pthread_t` in `TidMap`, in `waits[].chan` and in the scheduler's
methods).

The scheduler compares handles and nothing else, so it does the same whatever the handles are, as long
as different threads have different ones.

* `TidMap.rename h`, `Core.rename h`, `Sched.rename h` — the maps, the wait queue and the scheduler when
  the thread with the handle `p` has the handle `h p` instead.
* `signal_rename`, `create_rename`, `wait_rename`, `nextRunnable_rename`, … — every operation commutes
  with it.
-/

import Mathlib.Logic.Function.Basic
import MinSmt.Scheduler.Threads

namespace MinSmt

variable {h : PthreadT → PthreadT}

/-! ### The thread maps -/

/-- Writing at a renamed key. -/
theorem extend_update {γ : Type*} (inj : Function.Injective h) (f : PthreadT → γ) (rest : PthreadT → γ)
    (p : PthreadT)
    (v : γ) : Function.extend h (Function.update f p v) rest =
      Function.update (Function.extend h f rest) (h p) v := by
  funext q
  by_cases known : ∃ p', h p' = q
  · obtain ⟨p', rfl⟩ := known
    rw [inj.extend_apply]
    by_cases same : p' = p
    · rw [same, Function.update_self, Function.update_self]
    · rw [Function.update_of_ne same, Function.update_of_ne fun eq => same (inj eq), inj.extend_apply]
  · rw [Function.extend_apply' _ _ _ known, Function.update_of_ne fun eq => known ⟨p, eq.symm⟩,
      Function.extend_apply' _ _ _ known]

namespace TidMap

/-- The maps under other handles. -/
noncomputable def rename (h : PthreadT → PthreadT) (m : TidMap) : TidMap :=
  { m with
    pToT := Function.extend h m.pToT fun _ => none
    tToP := fun t => (m.tToP t).map h
    zombies := Function.extend h m.zombies fun _ => false }

theorem tToP_update (m : TidMap) (t : Tid) (handle : Option PthreadT) :
    (fun u => (Function.update m.tToP t handle u).map h) =
      Function.update (fun u => (m.tToP u).map h) t (handle.map h) := by
  funext u
  by_cases same : u = t
  · rw [same, Function.update_self, Function.update_self]
  · rw [Function.update_of_ne same, Function.update_of_ne same]

variable (inj : Function.Injective h)

include inj

theorem create_rename (wakeamapPlus : Bool) (m : TidMap) (th : PthreadT) (roleFunc : ThreadFunc) :
    (m.rename h).create wakeamapPlus (h th) roleFunc = (m.create wakeamapPlus th roleFunc).rename h := by
  have known := extend_update inj m.pToT (fun _ => none) th (some m.nthread)
  have named := tToP_update (h := h) m m.nthread (some th)
  cases wakeamapPlus with
  | false =>
    simp only [create, rename, Bool.false_eq_true, if_false, known, named]
    rfl
  | true =>
    simp only [create, if_true, assignRole]
    cases role : m.fToR roleFunc with
    | none => simp only [rename, role, known, named]; rfl
    | some role' => simp only [rename, role, known, named]; rfl

theorem zombify_rename (m : TidMap) (self : Tid) : (m.rename h).zombify self = (m.zombify self).rename h := by
  have named : (m.rename h).tToP self = (m.tToP self).map h := rfl
  cases known : m.tToP self with
  | none => simp only [zombify, named, known, Option.map_none]
  | some th =>
    have gone := extend_update inj m.pToT (fun _ => none) th none
    have dead := extend_update inj m.zombies (fun _ => false) th true
    have unnamed := tToP_update (h := h) m self none
    simp only [zombify, named, known, Option.map_some]
    simp only [rename, gone, dead, unnamed]
    rfl

theorem reap_rename (m : TidMap) (th : PthreadT) : (m.rename h).reap (h th) = (m.reap th).rename h := by
  unfold reap rename
  dsimp only
  rw [extend_update inj]

theorem zombie_rename (m : TidMap) (th : PthreadT) : (m.rename h).zombie (h th) = m.zombie th := by
  unfold zombie rename
  dsimp only
  rw [inj.extend_apply]

end TidMap

/-! ### The wait queue -/

/-- A channel under other handles. -/
def Chan.rename (h : PthreadT → PthreadT) : Chan → Chan
  | .thread th => .thread (h th)
  | chan => chan

theorem Chan.rename_injective (inj : Function.Injective h) : Function.Injective (Chan.rename h) := by
  intro c c' same
  cases c <;> cases c' <;> simp [Chan.rename] at same ⊢ <;> first | exact same | exact inj same

/-- A slot under other handles. -/
def WaitT.rename (h : PthreadT → PthreadT) (w : WaitT) : WaitT := { w with chan := w.chan.map (Chan.rename h) }

/-- Writing a renamed slot. -/
theorem waits_update (waits : Tid → WaitT) (t : Tid) (w : WaitT) :
    (fun u => (Function.update waits t w u).rename h) =
      Function.update (fun u => (waits u).rename h) t (w.rename h) := by
  funext u
  by_cases same : u = t
  · rw [same, Function.update_self, Function.update_self]
  · rw [Function.update_of_ne same, Function.update_of_ne same]

/-- A pass whose test and whose write do not depend on the handles. -/
theorem scan_rename {hit hit' : WaitT → Tid → Bool} {wake : WaitT → WaitT} {all : Bool}
    (hits : ∀ w t, hit' (w.rename h) t = hit w t) (wakes : ∀ w, wake (w.rename h) = (wake w).rename h)
    (waits : Tid → WaitT) (queue : List Tid) :
    scan hit' wake all (fun t => (waits t).rename h) queue =
      { scan hit wake all waits queue with
        waits := fun t => ((scan hit wake all waits queue).waits t).rename h } := by
  induction queue generalizing waits with
  | nil => rfl
  | cons tid rest ih =>
    have written := waits_update (h := h) waits tid (wake (waits tid))
    simp only [scan, hits, wakes, ← written]
    split
    · split
      · rw [ih]
      · rfl
    · rw [ih]

namespace Core

/-- The core under other handles. -/
noncomputable def rename (h : PthreadT → PthreadT) (c : Core) : Core :=
  { c with tm := c.tm.rename h, waits := fun t => (c.waits t).rename h }

theorem pass_rename {hit hit' : WaitT → Tid → Bool} {wake : WaitT → WaitT} (c : Core) (all : Bool)
    (hits : ∀ w t, hit' (w.rename h) t = hit w t) (wakes : ∀ w, wake (w.rename h) = (wake w).rename h) :
    (c.rename h).pass hit' wake all = ((c.pass hit wake all).1.rename h, (c.pass hit wake all).2) := by
  have scanned := @scan_rename h hit hit' wake all hits wakes c.waits c.waitq
  unfold pass rename
  dsimp only
  rw [scanned]

theorem signal_rename (inj : Function.Injective h) (c : Core) (chan : Chan) (all : Bool) :
    (c.rename h).signal (chan.rename h) all = ((c.signal chan all).1.rename h, (c.signal chan all).2) := by
  refine pass_rename c all (fun w _ => ?_) fun _ => rfl
  show (w.chan.map (Chan.rename h) == some (chan.rename h)) = (w.chan == some chan)
  rw [Bool.eq_iff_iff, beq_iff_eq, beq_iff_eq]
  exact (Option.map_injective (Chan.rename_injective inj)).eq_iff (b := some chan)

theorem fireTimeouts_rename (c : Core) :
    (c.rename h).fireTimeouts = (c.fireTimeouts.1.rename h, c.fireTimeouts.2) :=
  pass_rename c true (fun _ _ => rfl) fun _ => rfl

theorem wakeIdle_rename (c : Core) : (c.rename h).wakeIdle = (c.wakeIdle.1.rename h, c.wakeIdle.2) :=
  pass_rename c false (fun _ _ => rfl) fun _ => rfl

theorem enqueue_rename (c : Core) (tid : Tid) (chan : Option Chan) (timeout : Nat) :
    (c.rename h).enqueue tid (chan.map (Chan.rename h)) timeout = (c.enqueue tid chan timeout).rename h := by
  unfold enqueue rename
  dsimp only
  rw [waits_update]
  rfl

end Core

namespace Sched

/-- The scheduler under other handles. -/
noncomputable def rename (h : PthreadT → PthreadT) (s : Sched) : Sched := { s with toCore := s.toCore.rename h }

variable {o : Options} {s : Sched}

/-! ### The parts of the methods -/

theorem foldl_rename {f : Sched → Tid → Sched} (each : ∀ s t, f (s.rename h) t = (f s t).rename h)
    (tids : List Tid) (s : Sched) : tids.foldl f (s.rename h) = (tids.foldl f s).rename h :=
  List.foldl_hom (Sched.rename h) each

/-- Writing a renamed slot. -/
theorem waits_rename (s : Sched) (t : Tid) (w : WaitT) :
    ({ s.rename h with waits := Function.update (s.rename h).waits t (w.rename h) } : Sched) =
      ({ s with waits := Function.update s.waits t w } : Sched).rename h := by
  unfold rename Core.rename
  dsimp only
  rw [waits_update]

theorem post_rename (s : Sched) (t : Tid) : (s.rename h).post o t = (s.post o t).rename h := by
  have posted : ((s.waits t).rename h).post o = ((s.waits t).post o).rename h := by
    unfold WaitT.post
    split
    · rfl
    · split
      · rfl
      · split <;> rfl
  show ({ s.rename h with
    waits := Function.update (s.rename h).waits t (((s.waits t).rename h).post o) } : Sched) = _
  rw [posted]
  exact waits_rename s t _

theorem setFlag_rename (s : Sched) (t : Tid) (value : Bool) :
    (s.rename h).setFlag t value = (s.setFlag t value).rename h :=
  waits_rename s t { s.waits t with wokenUpFromHpQueueFlag := value }

theorem makeRunnable_rename (s : Sched) (t : Tid) :
    (s.rename h).makeRunnable o t = (s.makeRunnable o t).rename h := by
  unfold makeRunnable
  split
  · split <;> rfl
  · exact post_rename s t

theorem signal_rename (inj : Function.Injective h) (s : Sched) (chan : Chan) (all : Bool) :
    (s.rename h).signal o (chan.rename h) all = (s.signal o chan all).rename h := by
  unfold signal
  rw [show (s.rename h).toCore.signal (chan.rename h) all = _ from Core.signal_rename inj s.toCore chan all]
  exact foldl_rename makeRunnable_rename _ { s with toCore := (s.toCore.signal chan all).1 }

theorem fireTimeouts_rename (s : Sched) : (s.rename h).fireTimeouts o = (s.fireTimeouts o).rename h := by
  unfold fireTimeouts
  rw [show (s.rename h).toCore.fireTimeouts = _ from Core.fireTimeouts_rename s.toCore]
  exact foldl_rename makeRunnable_rename _ { s with toCore := s.toCore.fireTimeouts.1 }

theorem wakeUpIdleThread_rename (s : Sched) :
    (s.rename h).wakeUpIdleThread o = (s.wakeUpIdleThread o).rename h := by
  unfold wakeUpIdleThread
  rw [show (s.rename h).toCore.wakeIdle = _ from Core.wakeIdle_rename s.toCore]
  refine foldl_rename (fun s t => ?_) _ { s with toCore := s.toCore.wakeIdle.1 }
  split
  · rfl
  · exact post_rename s t

theorem bringBack_rename (s : Sched) (t : Tid) : (s.rename h).bringBack o t = (s.bringBack o t).rename h := by
  have back : (if 0 ≤ o.enforceTurnType then (s.rename h).returnToRunq t else (s.rename h).post o t) =
      (if 0 ≤ o.enforceTurnType then s.returnToRunq t else s.post o t).rename h := by
    split
    · rfl
    · exact post_rename s t
  unfold bringBack
  show (if s.runq.isIn s.elems t = true then _ else _) = _
  split
  · rfl
  · dsimp only
    rw [back]
    split <;> rfl

theorem checkWakeup_rename (s : Sched) (order : List Tid) :
    (s.rename h).checkWakeup o order = (s.checkWakeup o order).rename h := by
  unfold checkWakeup
  show (if s.interProWakeupFlag = true then _ else _) = _
  split
  · rw [foldl_rename bringBack_rename]
    rfl
  · rfl

theorem incTurnCount_rename (s : Sched) (order : List Tid) :
    (s.rename h).incTurnCount o order = (s.incTurnCount o order).rename h := by
  have ticked : (s.rename h).tickAndFire o = (s.tickAndFire o).rename h :=
    fireTimeouts_rename { s with toCore := s.toCore.tick }
  rw [incTurnCount, ticked, checkWakeup_rename]
  rfl

theorem checkNonDetBound_rename (s : Sched) :
    (s.rename h).checkNonDetBound o = (s.checkNonDetBound o).rename h := by
  have asked : (s.rename h).nonDetThds = s.nonDetThds := rfl
  have counted : (s.rename h).turnCount = s.turnCount := rfl
  unfold checkNonDetBound
  rw [asked, counted]
  split
  · split
    · dsimp only
      split <;> rfl
    · rfl
  · rfl

theorem popRunq_rename (s : Sched) : (s.rename h).popRunq = s.popRunq.map (rename h) := by
  unfold popRunq
  rw [Option.map_map]
  rfl

theorem popHpRunq_rename (s : Sched) : (s.rename h).popHpRunq = s.popHpRunq.map (rename h) := by
  unfold popHpRunq
  rw [Option.map_map]
  rfl

theorem popOwn_rename (s : Sched) (t : Tid) : (s.rename h).popOwn t = (s.popOwn t).map (rename h) := by
  unfold popOwn
  show (if (s.waits t).wokenUpFromHpQueueFlag = true then _ else _) = _
  split
  · rw [popHpRunq_rename, Option.map_map, Option.map_map]
    refine congrArg (fun f => Option.map f s.popHpRunq) ?_
    funext popped
    exact setFlag_rename popped t false
  · exact popRunq_rename s

theorem nextPop_rename (s : Sched) (t : Tid) : (s.rename h).nextPop o t = (s.nextPop o t).map (rename h) := by
  unfold nextPop
  split
  · exact popOwn_rename (s.setStatus t _) t
  · rfl

theorem requeue_rename (s : Sched) (t : Tid) (strategy : Strategy) :
    (s.rename h).requeue t strategy = (s.requeue t strategy).map (rename h) := by
  cases strategy with
  | currentThread | create => rfl
  | yield =>
    unfold requeue
    rw [popOwn_rename, Option.bind_map, Option.map_bind]
    refine congrArg (fun f => Option.bind (s.popOwn t) f) ?_
    funext popped
    unfold insertYield
    simp only [Function.comp_apply, Option.map_map]
    rfl
  | default | currentRole =>
    unfold requeue
    rw [popOwn_rename, Option.map_map, Option.map_map]
    rfl

/-! ### The methods -/

theorem putTurn_rename (s : Sched) (t : Tid) (strategy : Strategy) :
    (s.rename h).putTurn o t strategy = (s.putTurn o t strategy).map (rename h) := by
  unfold putTurn
  split
  · rw [show ((s.rename h).setStatus t .runnable).requeue t strategy = _ from
        requeue_rename (s.setStatus t .runnable) t strategy, Option.map_map, Option.map_map]
    refine congrArg (fun f => Option.map f ((s.setStatus t .runnable).requeue t strategy)) ?_
    funext requeued
    exact checkNonDetBound_rename requeued
  · rw [checkNonDetBound_rename]
    rfl

theorem wait_rename (s : Sched) (t : Tid) (chan : Option Chan) (timeout : Nat) (order : List Tid) :
    (s.rename h).wait o t (chan.map (Chan.rename h)) timeout order =
      (s.wait o t chan timeout order).map (rename h) := by
  have entered : (s.rename h).enterWaitq o t (chan.map (Chan.rename h)) timeout order =
      (s.enterWaitq o t chan timeout order).rename h := by
    unfold enterWaitq
    dsimp only
    rw [incTurnCount_rename,
      show ((s.incTurnCount o order).rename h).toCore.enqueue t (chan.map (Chan.rename h)) timeout =
      _ from Core.enqueue_rename (s.incTurnCount o order).toCore t chan timeout]
    split
    · exact waits_rename { s.incTurnCount o order with
        toCore := (s.incTurnCount o order).toCore.enqueue t chan timeout } t
        { ((s.incTurnCount o order).toCore.enqueue t chan timeout).waits t with runnable := false }
    · rfl
  rw [wait, entered, nextPop_rename]
  rfl

theorem idleEnqueue_rename (s : Sched) (t : Tid) :
    (s.rename h).idleEnqueue o t = (s.idleEnqueue o t).map (rename h) := by
  have entered : (s.rename h).enterIdle t = (s.enterIdle t).rename h := by
    unfold enterIdle
    rw [show (s.rename h).toCore.enqueue t (some .idleCond) forever = _ from
      Core.enqueue_rename s.toCore t (some .idleCond) forever]
    rfl
  rw [idleEnqueue, entered, nextPop_rename]
  rfl

theorem take_rename (s : Sched) (t : Tid) : (s.rename h).take o t = (s.take o t).map (rename h) := by
  have taken : ((s.waits t).rename h).take o = ((s.waits t).take o).map (WaitT.rename h) := by
    simp only [WaitT.take, WaitT.rename]
    split
    · by_cases posted : 0 < (s.waits t).sem <;> simp [posted, WaitT.rename]
    · split
      · by_cases posted : (s.waits t).wakenUp = true <;> simp [posted, WaitT.rename]
      · split
        · by_cases runnable : (s.waits t).runnable = true <;> simp [runnable, WaitT.rename]
        · rfl
  unfold take
  rw [show (s.rename h).waits t = (s.waits t).rename h from rfl, taken, Option.bind_map, Option.map_bind]
  refine congrArg (fun f => Option.bind ((s.waits t).take o) f) ?_
  funext w
  simp only [Function.comp_apply]
  split
  · show (if s.inSync = true then none else _) = _
    split <;> rfl
  · exact congrArg some (waits_rename s t w)

section Handles

variable (inj : Function.Injective h)

include inj

theorem create_rename (s : Sched) (th : PthreadT) (threadFunc : ThreadFunc) :
    (s.rename h).create o (h th) threadFunc = (s.create o th threadFunc).rename h := by
  unfold create
  dsimp only
  rw [show (s.rename h).tm.create o.wakeamapPlus (h th) threadFunc = _ from
    TidMap.create_rename inj o.wakeamapPlus s.tm th threadFunc]
  split
  · split <;> rfl
  · rfl

theorem signalJoiner_rename (s : Sched) (t : Tid) :
    (s.rename h).signalJoiner o t = (s.signalJoiner o t).rename h := by
  unfold signalJoiner
  have known : (s.rename h).tm.tToP t = (s.tm.tToP t).map h := rfl
  rw [known]
  cases s.tm.tToP t with
  | none => rfl
  | some th => exact signal_rename inj s (.thread th) false

theorem putTurnAtEnd_rename (s : Sched) (t : Tid) :
    (s.rename h).putTurnAtEnd o t = (s.putTurnAtEnd o t).map (rename h) := by
  have finished : (s.rename h).finish o t = (s.finish o t).rename h := by
    unfold finish
    dsimp only
    rw [signalJoiner_rename inj, show ((s.signalJoiner o t).rename h).tm.zombify t = _ from
      TidMap.zombify_rename inj (s.signalJoiner o t).tm t]
    exact checkNonDetBound_rename { s.signalJoiner o t with tm := (s.signalJoiner o t).tm.zombify t }
  rw [putTurnAtEnd, finished, nextPop_rename]
  rfl

end Handles

/-! ### The choice of the next thread -/

/-- The end of a round under other handles. -/
noncomputable def Pick.rename (h : PthreadT → PthreadT) : Pick → Pick
  | .again s strategy => .again (s.rename h) strategy
  | .grant s next => .grant (s.rename h) next
  | pick => pick

theorem grantHead_rename (s : Sched) (t : Tid) : (s.rename h).grantHead t = (s.grantHead t).rename h := by
  unfold grantHead
  show (if (s.elems t).status = .runnable then _ else _) = _
  split <;> rfl

theorem noteRemoved_rename (s : Sched) (t : Tid) :
    (s.rename h).noteRemoved o t = (s.noteRemoved o t).rename h := by
  unfold noteRemoved enterNonDet
  split <;> rfl

theorem pickRunq_rename (s : Sched) (strategy : Strategy) :
    (s.rename h).pickRunq o strategy = (s.pickRunq o strategy).rename h := by
  unfold pickRunq
  rw [show (s.rename h).runq.head = s.runq.head from rfl]
  cases s.runq.head with
  | none => rfl
  | some head =>
    show (if (s.elems head).status = .interProStop then _ else _) = Pick.rename h (if _ then _ else _)
    split
    · rw [popRunq_rename]
      cases s.popRunq with
      | none => rfl
      | some popped => exact congrArg (Pick.again · strategy) (noteRemoved_rename popped head)
    · exact congrArg (Pick.grant · head) (grantHead_rename s head)

theorem pickHp_rename (s : Sched) (strategy : Strategy) :
    (s.rename h).pickHp o strategy = (s.pickHp o strategy).rename h := by
  unfold pickHp
  rw [show (s.rename h).hpRunq.head = s.hpRunq.head from rfl]
  cases s.hpRunq.head with
  | none => rfl
  | some head =>
    show (if (s.elems head).status = .interProStop then _ else _) = Pick.rename h (if _ then _ else _)
    split
    · rw [popHpRunq_rename]
      cases s.popHpRunq with
      | none => rfl
      | some popped => exact congrArg (Pick.again · strategy) (noteRemoved_rename popped head)
    · rw [grantHead_rename, setFlag_rename]
      rfl

theorem pickRole_rename (s : Sched) (self : Tid) (strategy : Strategy) :
    (s.rename h).pickRole o self strategy = (s.pickRole o self strategy).rename h := by
  unfold pickRole
  rw [show (s.rename h).tm.tToR self = s.tm.tToR self from rfl, show (s.rename h).runq.head = s.runq.head from rfl]
  cases s.tm.tToR self with
  | none => rfl
  | some role =>
    cases s.runq.head with
    | none => rfl
    | some head =>
      show (if (s.elems head).status = .interProStop then _ else _) = Pick.rename h (if _ then _ else _)
      split
      · rw [popRunq_rename]
        cases s.popRunq with
        | none => rfl
        | some popped => exact congrArg (Pick.again · strategy) (noteRemoved_rename popped head)
      · rw [show (s.rename h).tm.tToR head = s.tm.tToR head from rfl]
        cases s.tm.tToR head with
        | none => rfl
        | some headRole =>
          show (if role = headRole then _ else _) = Pick.rename h (if _ then _ else _)
          split
          · exact congrArg (Pick.grant · head) (grantHead_rename s head)
          · rw [popRunq_rename]
            cases s.popRunq with
            | none => rfl
            | some popped => rfl

theorem nextRunnable_rename (inj : Function.Injective h) (s : Sched) (idleDone : Bool) (self : Tid)
    (atThreadEnd : Bool) (strategy : Strategy) :
    (s.rename h).nextRunnable o idleDone self atThreadEnd strategy =
      (s.nextRunnable o idleDone self atThreadEnd strategy).rename h := by
  unfold nextRunnable
  show (if FromHpRunq o s self strategy then _ else _) = _
  split
  · exact pickHp_rename s strategy
  · show (if strategy = .currentRole ∧ s.runq.empty = false then _ else _) = _
    split
    · exact pickRole_rename s self strategy
    · show (if s.runq.empty = true then _ else _) = _
      split
      · show (if atThreadEnd = true ∧ (s.waitq = [] ∨ self = mainThreadTid) then _ else _) = _
        split
        · rfl
        · split
          · rfl
          · split
            · rfl
            · rw [wakeUpIdleThread_rename]
              exact pickRunq_rename _ _
      · show (if o.enforceNonDetAnnotations = true ∧ 0 < s.nNonDetWait ∧ self = idleThreadTid ∧
          s.runq.numElements = 1 ∧ s.runq.head = some idleThreadTid then _ else _) = _
        split
        · rw [show (s.rename h).signal o .nonDetCV true = _ from signal_rename inj s .nonDetCV true]
          exact pickRunq_rename _ _
        · exact pickRunq_rename s strategy

end Sched

end MinSmt
