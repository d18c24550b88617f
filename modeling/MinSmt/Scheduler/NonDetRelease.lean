/-
**The idle thread opens the non-det regions** (`nonDetStart`, `putTurn`, `next`, `nextRunnable`).

A thread that enters a non-det region waits on `nonDetCV` until every thread but the idle thread is
paused. The only `signal` on `nonDetCV` is in `nextRunnable`: the idle thread calls it when it is the
single element of `runq`. So the release is a matter of one loop, which has to drop the threads in
external calls from both queues before it meets the idle thread:

* `Emptying` — all that is left in front of the idle thread has stopped. A round drops one
  (`Emptying.drop_hp`, `Emptying.drop_runq`), and the last one signals (`Emptying.opens`);
* `Emptying.run` — the whole loop, by induction on what is left;
* `Sealed` — nothing is put behind the idle thread on the way: `checkNonDetBound` returns nobody to
  `runq`, and `check_wakeup` finds the threads that have come back in a queue;
* **`non_det_regions_open`** — with run queues and `Sealed` the idle thread's `putTurn` leaves nobody on
  `nonDetCV`. Without run queues `next` does not call `nextRunnable`, and everybody stays there
  (`non_det_region_stays_closed`).
-/

import MinSmt.Scheduler.IdleThread

namespace MinSmt

open MinSmt.Library Sched Sys

variable {o : Options} {s s' : Sys} {sched : Sched} {runq hp rest : List Tid}

/-- Nobody waits on `nonDetCV` any more, and who did is in a run queue. -/
def Sched.Released (before after : Sched) : Prop :=
  (∀ t ∈ after.waitq, (after.waits t).chan ≠ some .nonDetCV) ∧
    ∃ runq hp, Linked after.elems after.runq after.hpRunq runq hp ∧
      ∀ t ∈ before.waitq, (before.waits t).chan = some .nonDetCV → t ∈ runq ∨ t ∈ hp

/-- Who is still in `waitq` after a `signal` for all does not wait on that channel. -/
theorem Core.signal_all_chan {c : Core} (nodup : c.waitq.Nodup) (chan : Chan) {t : Tid}
    (inside : t ∈ (c.signal chan true).1.waitq) : ((c.signal chan true).1.waits t).chan ≠ some chan := by
  have same : (c.signal chan true).1.waits t = c.waits t :=
    scan_frame _ ((scan_kept_iff nodup).mp inside).2
  rw [show (c.signal chan true).1.waitq = _ from scan_kept_all nodup] at inside
  rw [same]
  simpa using (List.mem_filter.mp inside).2

/-- **`signal` for all** takes every thread on the channel to the ends of the run queues. -/
theorem signalAll_linked (rr : 0 ≤ o.enforceTurnType)
    (linked : Linked sched.elems sched.runq sched.hpRunq runq hp)
    (off : o.highPriority = false → hp = []) (nodup : sched.waitq.Nodup)
    (apart : ∀ t ∈ sched.waitq, t ∉ runq ∧ t ∉ hp) (chan : Chan) :
    ∃ waits waitq elems q h more more', sched.signal o chan true =
        { sched with waits := waits, waitq := waitq, elems := elems, runq := q, hpRunq := h } ∧
      Linked elems q h (runq ++ more) (hp ++ more') ∧
      (∀ t, (elems t).status = (sched.elems t).status) ∧
      (∀ t ∈ waitq, (waits t).chan ≠ some chan) ∧
      ∀ t ∈ sched.waitq, (sched.waits t).chan = some chan → t ∈ more ∨ t ∈ more' := by
  have woken : (sched.toCore.signal chan true).2 =
      sched.waitq.filter fun t => (sched.waits t).chan == some chan := scan_woken_all nodup
  have fresh : ∀ t, runq.count t + hp.count t + (sched.toCore.signal chan true).2.count t ≤ 1 := by
    intro t
    have once := List.nodup_iff_count_le_one.mp nodup t
    have onceRunq := List.nodup_iff_count_le_one.mp linked.queue.queue.nodup t
    have onceHp := List.nodup_iff_count_le_one.mp linked.second.queue.nodup t
    have fewer : (sched.toCore.signal chan true).2.count t ≤ sched.waitq.count t := by
      rw [woken]
      exact List.filter_sublist.count_le t
    by_cases waits : t ∈ sched.waitq
    · rw [List.count_eq_zero.mpr (apart t waits).1, List.count_eq_zero.mpr (apart t waits).2]
      omega
    · rw [List.count_eq_zero.mpr waits] at fewer
      by_cases inside : t ∈ runq
      · rw [List.count_eq_zero.mpr (linked.apart t inside)]
        omega
      · rw [List.count_eq_zero.mpr inside]
        omega
  obtain ⟨elems, q, h, more, more', folded, linked', counts, -, status⟩ := foldl_makeRunnable rr
    (s := { sched with toCore := (sched.toCore.signal chan true).1 }) _ linked off fresh
  refine ⟨_, _, elems, q, h, more, more', folded, linked', status,
    fun t inside => Core.signal_all_chan nodup chan inside, fun t waits on => ?_⟩
  have taken : t ∈ (sched.toCore.signal chan true).2 := by
    rw [woken]
    exact List.mem_filter.mpr ⟨waits, by simp [on]⟩
  have positive := List.count_pos_iff.mpr taken
  rw [← counts t] at positive
  rcases Nat.lt_or_ge 0 (more.count t) with first | none
  · exact Or.inl (List.count_pos_iff.mp first)
  · exact Or.inr (List.count_pos_iff.mp (by omega))

/-- The process has not ended inside `nextRunnable`. -/
def Running (s : Sys) : Prop := s.outcome ≠ some .exited ∧ s.outcome ≠ some .crashed

theorem Running.step_eq (running : Running s) (tid : Tid) (action : Action) :
    s.step o (tid, action) = s.threadStep o tid action := by
  unfold Sys.step
  split
  · rename_i exited
    exact absurd exited running.1
  · rename_i crashed
    exact absurd crashed running.2
  · rfl

@[simp] theorem Sched.post_chan (o : Options) (sched : Sched) (tid t : Tid) :
    ((sched.post o tid).waits t).chan = (sched.waits t).chan := by
  by_cases own : t = tid
  · subst own
    simp only [Sched.post, Function.update_self, WaitT.post]
    split_ifs <;> rfl
  · simp [Sched.post, Function.update_of_ne own]

namespace Sched.Released

variable {before before' after : Sched}

theorem post (released : before.Released after) (o : Options) (tid : Tid) :
    before.Released (after.post o tid) := by
  obtain ⟨nobody, queues⟩ := released
  refine ⟨fun t inside => ?_, queues⟩
  rw [post_chan]
  exact nobody t inside

/-- Who waits, and on what, is all that matters of the state before. -/
theorem of_same (released : before.Released after) (waitq : before.waitq = before'.waitq)
    (chan : ∀ t, (before.waits t).chan = (before'.waits t).chan) : before'.Released after := by
  obtain ⟨nobody, runq, hp, linked, queued⟩ := released
  refine ⟨nobody, runq, hp, linked, fun t waits on => queued t ?_ ?_⟩
  · rwa [waitq]
  · rwa [chan]

end Sched.Released

/-! ### The loop of `nextRunnable` -/

/-- **Only stopped threads are in front of the idle thread.** -/
structure Emptying (o : Options) (sched : Sched) (rest hp : List Tid) : Prop where
  linked : Linked sched.elems sched.runq sched.hpRunq (rest ++ [idleThreadTid]) hp
  off : o.highPriority = false → hp = []
  stopped : ∀ t, t ∈ rest ∨ t ∈ hp → (sched.elems t).status = .interProStop
  awake : (sched.elems idleThreadTid).status ≠ .interProStop
  unflagged : (sched.waits idleThreadTid).wokenUpFromHpQueueFlag = false
  wanted : 0 < sched.nNonDetWait
  nodup : sched.waitq.Nodup
  outside : idleThreadTid ∉ sched.waitq

namespace Emptying

theorem noteRemoved_frame (sched : Sched) (t : Tid) :
    (sched.noteRemoved o t).toCore = sched.toCore ∧ (sched.noteRemoved o t).elems = sched.elems ∧
      (sched.noteRemoved o t).runq = sched.runq ∧ (sched.noteRemoved o t).hpRunq = sched.hpRunq ∧
      (sched.noteRemoved o t).nNonDetWait = sched.nNonDetWait := by
  unfold Sched.noteRemoved Sched.enterNonDet
  split <;> simp

/-- A head that is dropped. -/
theorem dropped (emptying : Emptying o sched rest hp) {elems : Elems} {q h : RunQueue}
    {rest' hp' : List Tid} (linked : Linked elems q h (rest' ++ [idleThreadTid]) hp')
    (status : ∀ t, (elems t).status = (sched.elems t).status) (fewer : rest' ⊆ rest) (fewer' : hp' ⊆ hp)
    (head : Tid) : Emptying o (noteRemoved o { sched with elems := elems, runq := q, hpRunq := h } head)
      rest' hp' := by
  obtain ⟨sameCore, sameElems, sameRunq, sameHp, sameWait⟩ := noteRemoved_frame (o := o)
    { sched with elems := elems, runq := q, hpRunq := h } head
  refine ⟨?_, fun no => ?_, fun t inside => ?_, ?_, ?_, ?_, ?_, ?_⟩
  · rw [sameElems, sameRunq, sameHp]
    exact linked
  · exact List.eq_nil_of_subset_nil (emptying.off no ▸ fewer')
  · rw [sameElems, status t]
    exact emptying.stopped t (inside.imp (fun member => fewer member) fun member => fewer' member)
  · rw [sameElems, status]
    exact emptying.awake
  · rw [sameCore]
    exact emptying.unflagged
  · rw [sameWait]
    exact emptying.wanted
  · rw [sameCore]
    exact emptying.nodup
  · rw [sameCore]
    exact emptying.outside

/-- **The head of `hp_runq` is dropped.** -/
theorem drop_hp {head : Tid} (emptying : Emptying o sched rest (head :: hp)) (idleDone : Bool) :
    ∃ after, sched.nextRunnable o idleDone idleThreadTid false .default = .again after .default ∧
      Emptying o after rest hp ∧ after.toCore = sched.toCore := by
  have high : o.highPriority = true := by
    by_contra low
    exact List.cons_ne_nil _ _ (emptying.off (by simpa using low))
  have fromHp : FromHpRunq o sched idleThreadTid .default := by
    refine ⟨high, ?_, ?_, by simp⟩
    · simp [Bool.eq_false_iff, emptying.linked.second.empty_iff]
    · simp [emptying.unflagged]
  obtain ⟨elems, h, popped, linked, status⟩ := emptying.linked.symm.popFront
  refine ⟨_, ?_, emptying.dropped linked.symm status (List.Subset.refl _) (List.subset_cons_self _ _) head,
    (noteRemoved_frame _ _).1⟩
  simp [Sched.nextRunnable, fromHp, Sched.pickHp, emptying.linked.second.head_eq,
    emptying.stopped head (Or.inr List.mem_cons_self), Sched.popHpRunq, popped]

theorem runq_not_empty (emptying : Emptying o sched rest hp) : sched.runq.empty = false := by
  simp [Bool.eq_false_iff, emptying.linked.queue.empty_iff]

theorem not_fromHp (emptying : Emptying o sched rest []) :
    ¬ FromHpRunq o sched idleThreadTid .default := by
  have empty : sched.hpRunq.empty = true := emptying.linked.second.empty_iff.mpr rfl
  simp [FromHpRunq, empty]

/-- **The head of `runq` is dropped**, when `hp_runq` is empty: there are two elements at least. -/
theorem drop_runq {head : Tid} (emptying : Emptying o sched (head :: rest) []) (idleDone : Bool) :
    ∃ after, sched.nextRunnable o idleDone idleThreadTid false .default = .again after .default ∧
      Emptying o after rest [] ∧ after.toCore = sched.toCore := by
  obtain ⟨elems, q, popped, linked, status⟩ := emptying.linked.popFront
  refine ⟨_, ?_, emptying.dropped linked status (List.subset_cons_self _ _) (List.Subset.refl _) head,
    (noteRemoved_frame _ _).1⟩
  have more : sched.runq.numElements ≠ 1 := by
    rw [emptying.linked.queue.size]
    simp
  simp [Sched.nextRunnable, emptying.not_fromHp, emptying.runq_not_empty, more, Sched.pickRunq,
    emptying.linked.queue.head_eq, emptying.stopped head (Or.inl List.mem_cons_self), Sched.popRunq, popped]

/-- **The idle thread meets itself**: it wakes the threads on `nonDetCV`, and goes on. -/
theorem opens (rr : 0 ≤ o.enforceTurnType) (annotated : o.enforceNonDetAnnotations = true)
    (emptying : Emptying o sched [] []) (idleDone : Bool) :
    ∃ after, sched.nextRunnable o idleDone idleThreadTid false .default = .grant after idleThreadTid ∧
      sched.Released after := by
  have linked : Linked sched.elems sched.runq sched.hpRunq [idleThreadTid] [] := emptying.linked
  have apart : ∀ t ∈ sched.waitq, t ∉ [idleThreadTid] ∧ t ∉ [] := by
    intro t inside
    simp only [List.mem_singleton, List.not_mem_nil, not_false_eq_true, and_true]
    exact fun same => emptying.outside (same ▸ inside)
  obtain ⟨waits, waitq, elems, q, h, more, more', signalled, linked', status, nobody, queued⟩ :=
    signalAll_linked rr linked emptying.off emptying.nodup apart .nonDetCV
  have head : q.head = some idleThreadTid := by
    rw [linked'.queue.head_eq]
    rfl
  have picked : sched.nextRunnable o idleDone idleThreadTid false .default =
      .grant ((sched.signal o .nonDetCV true).grantHead idleThreadTid) idleThreadTid := by
    have single : sched.runq.numElements = 1 := linked.queue.size
    have awake := emptying.awake
    rw [← status] at awake
    simp [Sched.nextRunnable, emptying.not_fromHp, emptying.runq_not_empty, annotated, emptying.wanted,
      single, linked.queue.head_eq, Sched.pickRunq, signalled, head, awake]
  refine ⟨_, picked, ?_⟩
  rw [signalled]
  unfold Sched.grantHead
  split
  · refine ⟨nobody, _, _, linked'.setStatus idleThreadTid .runningReg, fun t waited on => ?_⟩
    exact (queued t waited on).imp (List.mem_append_right _) (List.mem_append_right _)
  · refine ⟨nobody, _, _, linked', fun t waited on => ?_⟩
    exact (queued t waited on).imp (List.mem_append_right _) (List.mem_append_right _)

theorem step_round (running : Running s)
    (here : s.pc idleThreadTid = .leaving .picking false .default .away) :
    s.step o (idleThreadTid, .nextRunnable) = some (s.picked idleThreadTid false .default .away
      (s.sched.nextRunnable o s.idleDone idleThreadTid false .default)) := by
  rw [running.step_eq]
  simp [Sys.threadStep, here, Sys.leaveStep]

theorem step_post {next : Tid} (running : Running s)
    (here : s.pc idleThreadTid = .leaving (.posting next) false .default .away) :
    s.step o (idleThreadTid, .post) = some (s.goto idleThreadTid (s.sched.post o next) .away) := by
  rw [running.step_eq]
  simp [Sys.threadStep, here, Sys.leaveStep, After.pc]

/-- **The loop** drops what is left, and opens the regions. -/
theorem run (rr : 0 ≤ o.enforceTurnType) (annotated : o.enforceNonDetAnnotations = true)
    (emptying : Emptying o s.sched rest hp) (running : Running s)
    (here : s.pc idleThreadTid = .leaving .picking false .default .away) :
    ∃ s', exec (Sys.step o) s (List.replicate (rest.length + hp.length + 1)
        (idleThreadTid, .nextRunnable) ++ [(idleThreadTid, .post)]) = some s' ∧
      s.sched.Released s'.sched := by
  induction left : rest.length + hp.length generalizing s rest hp with
  | zero =>
    obtain ⟨rfl, rfl⟩ : rest = [] ∧ hp = [] := by
      constructor <;> exact List.length_eq_zero_iff.mp (by omega)
    obtain ⟨after, isGrant, released⟩ := emptying.opens rr annotated s.idleDone
    have chosen := step_round (o := o) running here
    rw [isGrant] at chosen
    set granted : Sys := s.picked idleThreadTid false .default .away (.grant after idleThreadTid)
    have posted : granted.step o (idleThreadTid, .post) =
        some (granted.goto idleThreadTid (after.post o idleThreadTid) .away) :=
      step_post running goto_pc_self
    refine ⟨granted.goto idleThreadTid (after.post o idleThreadTid) .away, ?_,
      released.post o idleThreadTid⟩
    show (s.step o (idleThreadTid, .nextRunnable)).bind _ = _
    rw [chosen]
    exact congrArg (Option.bind · some) posted
  | succ n ih =>
    obtain ⟨after, rest', hp', again, emptying', sameCore, shorter⟩ :
        ∃ after rest' hp', s.sched.nextRunnable o s.idleDone idleThreadTid false .default =
            .again after .default ∧ Emptying o after rest' hp' ∧ after.toCore = s.sched.toCore ∧
          rest'.length + hp'.length = n := by
      cases hp with
      | cons head hp =>
        obtain ⟨after, again, emptying', sameCore⟩ := emptying.drop_hp s.idleDone
        exact ⟨after, rest, hp, again, emptying', sameCore, Nat.succ.inj left⟩
      | nil =>
        cases rest with
        | cons head rest =>
          obtain ⟨after, again, emptying', sameCore⟩ := emptying.drop_runq s.idleDone
          exact ⟨after, rest, [], again, emptying', sameCore, by simpa using left⟩
        | nil => simp at left
    have dropped := step_round (o := o) running here
    rw [again] at dropped
    obtain ⟨s', ran, released⟩ := @ih (s.picked idleThreadTid false .default .away
      (.again after .default)) hp' rest' emptying' running goto_pc_self shorter
    refine ⟨s', ?_, ?_⟩
    · rw [List.replicate_succ, List.cons_append]
      show (s.step o _).bind _ = _
      rw [dropped]
      exact ran
    · exact released.of_same (congrArg Core.waitq sameCore) fun t => by
        rw [show (s.picked idleThreadTid false .default .away (.again after .default)).sched.toCore =
          s.sched.toCore from sameCore]

end Emptying

/-! ### Up to the loop -/

/-- The element is alone in `hp_runq`, the idle thread apart. -/
def Sched.Alone (sched : Sched) (t : Tid) : Prop :=
  sched.hpRunq.tail = some t ∧ sched.hpRunq.numElements =
    if (sched.waits idleThreadTid).wokenUpFromHpQueueFlag then 2 else 1

instance (sched : Sched) (t : Tid) : Decidable (sched.Alone t) := inferInstanceAs (Decidable (_ ∧ _))

/-- **Nothing is put behind the idle thread** while it gives the turn away. -/
structure Sealed (o : Options) (s : Sys) : Prop where
  /-- `checkNonDetBound` returns nobody to `runq`. -/
  bound : o.enforceNonDetClockBound = true → ∀ t ∈ s.sched.nonDetThds.tids.head?,
    s.sched.turnCount ≤ (s.sched.nonDetThds.clock t + o.nonDetClockBound) % unsignedMod
  /-- Nor has it returned a thread that is in a non-det region. -/
  regions : ∀ t < s.sched.tm.nthread, s.pc t = .nonDet → t ∈ s.sched.removed
  /-- `check_wakeup` finds the others that have come back in a queue. -/
  back : ∀ t ∈ s.sched.interProWakeupTids, t ≠ idleThreadTid →
    t ∉ s.sched.removed ∧ ¬ s.sched.Alone t

/-- Every thread but the idle thread waits or is outside the scheduler. -/
def AllPaused (s : Sys) : Prop :=
  ∀ t < s.sched.tm.nthread, t ≠ idleThreadTid → s.sched.Live t →
    t ∈ s.sched.waitq ∨ s.pc t = .inCall ∨ s.pc t = .nonDet

instance (s : Sys) : Decidable (Running s) := inferInstanceAs (Decidable (_ ∧ _))

instance (s : Sys) : Decidable (AllPaused s) :=
  inferInstanceAs (Decidable (∀ t < s.sched.tm.nthread, _))

/-- All that is queued has stopped, the idle thread apart. -/
theorem stopped_of_paused {scope : Scope} {holder : Option Tid} (inv : Inv o scope s runq hp holder)
    (paused : AllPaused s) (closed : Sealed o s) {t : Tid} (other : t ≠ idleThreadTid)
    (queued : t ∈ runq ∨ t ∈ hp) : (s.sched.elems t).status = .interProStop := by
  obtain ⟨live, notWaiting, notRemoved⟩ : s.sched.Live t ∧ t ∉ s.sched.waitq ∧ t ∉ s.sched.removed := by
    rcases queued with inside | inside
    · exact inv.layout.runq_live inside
    · obtain ⟨live, notWaiting, notRemoved, -⟩ := inv.layout.hp_live inside
      exact ⟨live, notWaiting, notRemoved⟩
  have known := inv.layout.known t live
  rcases paused t known other live with waits | inCall | inRegion
  · exact absurd waits notWaiting
  · have fits := inv.status t
    rw [inCall] at fits
    exact fits
  · exact absurd (closed.regions t known inRegion) notRemoved

/-- `check_wakeup` moves nobody when every thread that has come back is in a queue. -/
theorem checkWakeup_of_isIn {order : List Tid}
    (inside : ∀ t ∈ order, sched.runq.isIn sched.elems t = true) :
    sched.checkWakeup o order = { sched with
      interProWakeupTids := if sched.interProWakeupFlag then [] else sched.interProWakeupTids
      interProWakeupFlag := false } := by
  have all : order.foldl (Sched.bringBack o) sched = sched := by
    induction order with
    | nil => rfl
    | cons t order ih =>
      have first : sched.bringBack o t = sched := if_pos (inside t List.mem_cons_self)
      rw [List.foldl_cons, first]
      exact ih fun t member => inside t (List.mem_cons_of_mem _ member)
  unfold Sched.checkWakeup
  split
  · rw [all]
  · cases sched
    simp_all

/-- The first is the last. -/
theorem eq_single {tids : List Tid} {t : Tid} (nodup : tids.Nodup) (first : tids.head? = some t)
    (last : tids.getLast? = some t) : tids = [t] := by
  obtain ⟨rest, rfl⟩ := List.head?_eq_some_iff.mp first
  cases rest with
  | nil => rfl
  | cons second rest =>
    rw [List.getLast?_cons_cons] at last
    exact absurd (List.mem_of_getLast? last) (List.nodup_cons.mp nodup).1

/-- `checkNonDetBound` moves no thread within the bound. -/
theorem checkNonDetBound_of_bound (bound : o.enforceNonDetClockBound = true →
    ∀ t ∈ sched.nonDetThds.tids.head?,
      sched.turnCount ≤ (sched.nonDetThds.clock t + o.nonDetClockBound) % unsignedMod) :
    ∃ nonDet, sched.checkNonDetBound o = { sched with nonDetThds := nonDet } := by
  unfold Sched.checkNonDetBound
  split
  · rename_i t rest isSet isFirst
    exact ⟨_, if_neg (Nat.not_lt.mpr (bound isSet t (by simp [isFirst])))⟩
  · exact ⟨_, rfl⟩

/-- **`putTurn` of the idle thread** puts it behind the others, and `check_wakeup` changes nothing. -/
theorem Emptying.start {scope : Scope} {holder : Option Tid} (rr : o.RoundRobin)
    (inv : Inv o scope s runq hp holder) (here : s.pc idleThreadTid = .turn false)
    (paused : AllPaused s) (closed : Sealed o s) (wanted : 0 < s.sched.nNonDetWait) :
    ∃ sched rest hp, s.sched.putTurn o idleThreadTid .default = some sched ∧
      Emptying o sched rest hp ∧ sched.waitq = s.sched.waitq ∧
      (∀ t, (sched.waits t).chan = (s.sched.waits t).chan) ∧
      sched.interProWakeupTids = s.sched.interProWakeupTids ∧
      ∀ t ∈ sched.interProWakeupTids, sched.runq.isIn sched.elems t = true := by
  have layout := inv.layout
  have inTurn : (s.pc idleThreadTid).inTurn = true := by rw [here]; rfl
  have isHolder := inv.holder_eq inTurn
  have front := (inv.front idleThreadTid isHolder (by rw [here]; rfl)).1
  obtain ⟨elems, q, h, runq', hp', popped, linked, status, lists⟩ :=
    popOwn_head (s := s.sched.setStatus idleThreadTid .runnable) (layout.linked.setStatus _ _) front
  -- where the others are
  have place : (idleThreadTid ∉ runq' ∧ idleThreadTid ∉ hp') ∧
      ∀ t, t ≠ idleThreadTid → (t ∈ runq' ∨ t ∈ hp' ↔ t ∈ runq ∨ t ∈ hp) := by
    have nodup := layout.linked.queue.queue.nodup
    have nodup' := layout.linked.second.queue.nodup
    rcases lists with ⟨-, rfl, rfl⟩ | ⟨-, rfl, rfl⟩
    · refine ⟨⟨fun inside => layout.linked.apart _ inside List.mem_cons_self,
        (List.nodup_cons.mp nodup').1⟩, fun t other => ?_⟩
      simp [other]
    · refine ⟨⟨(List.nodup_cons.mp nodup).1, layout.linked.apart _ List.mem_cons_self⟩, fun t other => ?_⟩
      simp [other]
  obtain ⟨⟨notRunq, notHp⟩, same⟩ := place
  have pushed := linked.pushBack notRunq notHp
  set put : Sched := { s.sched.setStatus idleThreadTid .runnable with
    elems := (q.pushBack elems idleThreadTid).1
    runq := (q.pushBack elems idleThreadTid).2
    hpRunq := h
    waits := clearFlag s.sched.waits idleThreadTid } with isPut
  obtain ⟨nonDet, kept⟩ : ∃ nonDet, put.checkNonDetBound o = { put with nonDetThds := nonDet } :=
    checkNonDetBound_of_bound closed.bound
  set sched : Sched := { put with nonDetThds := nonDet } with isSched
  have left : s.sched.putTurn o idleThreadTid .default = some sched := by
    rw [Sched.putTurn, if_pos rr.nonneg, Sched.requeue, popped]
    exact congrArg some kept
  have statusOf : ∀ t, (sched.elems t).status =
      ((s.sched.setStatus idleThreadTid .runnable).elems t).status := fun t =>
    (RunQueue.pushBack_status _ _ _ _).trans (status t)
  refine ⟨sched, runq', hp', left, ⟨pushed, fun no => ?_, fun t queued => ?_, ?_, ?_, wanted,
    layout.waitq_nodup, ?_⟩, rfl, fun t => (clearFlag_fields _ _ t).1, rfl, fun t inside => ?_⟩
  · have empty := layout.off no
    rcases lists with ⟨-, -, isHp⟩ | ⟨-, -, isHp⟩
    · rw [empty] at isHp
      cases isHp
    · rw [isHp, empty]
  · have other : t ≠ idleThreadTid := fun isIdle => by
      subst isIdle
      exact queued.elim notRunq notHp
    rw [statusOf, setStatus_of_ne other]
    exact stopped_of_paused inv paused closed other ((same t other).mp queued)
  · rw [statusOf, setStatus_self]
    simp
  · simp [isSched, isPut, clearFlag]
  · rcases front.member with inside | inside
    · exact (layout.runq_live inside).2.1
    · exact (layout.hp_live inside).2.1
  · refine pushed.isIn_iff.mpr ?_
    by_cases isIdle : t = idleThreadTid
    · exact Or.inl (by simp [isIdle])
    · obtain ⟨notRemoved, notAlone⟩ := closed.back t inside isIdle
      obtain ⟨live, notWaiting⟩ := layout.wakeups t inside
      have queued : t ∈ runq' ∨ t ∈ hp' := by
        rw [same t isIdle]
        by_contra neither
        exact notRemoved (layout.removed_of_live live (fun member => neither (Or.inl member))
          (fun member => neither (Or.inr member)) notWaiting)
      refine queued.imp (List.mem_append_left _) fun member => ⟨member, ?_⟩
      rcases pushed.second.queue.linked member with hasPrev | hasNext | ⟨isHead, isTail⟩
      · exact Or.inl hasPrev
      · exact Or.inr hasNext
      · exfalso
        rw [pushed.second.head_eq] at isHead
        rw [pushed.second.queue.tail_eq] at isTail
        obtain rfl := eq_single pushed.second.queue.nodup isHead isTail
        refine notAlone ?_
        unfold Sched.Alone
        rw [layout.linked.second.queue.tail_eq, layout.linked.second.size]
        rcases lists with ⟨isSet, -, rfl⟩ | ⟨unset, -, rfl⟩
        · exact ⟨rfl, (if_pos isSet).symm⟩
        · exact ⟨rfl, (if_neg (Bool.eq_false_iff.mp unset)).symm⟩

/-! ### The release -/

/-- The idle thread gives the turn away, in this many rounds of `nextRunnable`. -/
def idlePutTurn (order : List Tid) (rounds : Nat) : List (Tid × Action) :=
  (idleThreadTid, .putTurn .default) :: (idleThreadTid, .checkWakeup order) ::
    (List.replicate rounds (idleThreadTid, .nextRunnable) ++ [(idleThreadTid, .post)])

/-- Without run queues the threads on `nonDetCV` stay there. -/
def StayClosed (before after : Sched) : Prop :=
  after.waitq = before.waitq ∧ ∀ t, (after.waits t).chan = (before.waits t).chan

section Steps

variable (running : Running s)

include running

theorem step_putTurn (here : s.pc idleThreadTid = .turn false)
    (left : s.sched.putTurn o idleThreadTid .default = some sched) :
    s.step o (idleThreadTid, .putTurn .default) =
      some (s.goto idleThreadTid sched (.leaving .checking false .default .away)) := by
  rw [running.step_eq]
  simp [Sys.threadStep, here, Sys.turnStep, left, Sys.leave]

theorem step_checkWakeup {order : List Tid}
    (here : s.pc idleThreadTid = .leaving .checking false .default .away)
    (perm : order.Perm s.sched.interProWakeupTids) :
    s.step o (idleThreadTid, .checkWakeup order) = some
      (if 0 ≤ o.enforceTurnType then
        s.goto idleThreadTid (s.sched.checkWakeup o order) (.leaving .picking false .default .away)
      else s.goto idleThreadTid { s.sched.checkWakeup o order with inSync := false } .away) := by
  rw [running.step_eq]
  simp only [Sys.threadStep, here, Sys.leaveStep, perm, true_and, if_true]
  split <;> rfl

end Steps

/-- **With run queues** the idle thread's `putTurn` opens the regions. -/
theorem opens_with_queues {scope : Scope} {holder : Option Tid} (rr : o.RoundRobin)
    (inv : Inv o scope s runq hp holder) (running : Running s)
    (annotated : o.enforceNonDetAnnotations = true) (wanted : 0 < s.sched.nNonDetWait)
    (here : s.pc idleThreadTid = .turn false) (paused : AllPaused s) (closed : Sealed o s)
    {order : List Tid} (perm : order.Perm s.sched.interProWakeupTids) :
    ∃ rounds s', exec (Sys.step o) s (idlePutTurn order rounds) = some s' ∧
      s.sched.Released s'.sched := by
  obtain ⟨sched, rest, hp', left, emptying, waitq, chan, side, inside⟩ :=
    Emptying.start rr inv here paused closed wanted
  have same := @checkWakeup_of_isIn o sched order fun t member =>
    inside t (side ▸ perm.mem_iff.mp member)
  have gave := step_putTurn running here left
  set gone := s.goto idleThreadTid sched (.leaving .checking false .default .away)
  have looked := step_checkWakeup (o := o) (s := gone) running goto_pc_self (side ▸ perm)
  rw [if_pos rr.nonneg] at looked
  set checked := gone.goto idleThreadTid (gone.sched.checkWakeup o order)
    (.leaving .picking false .default .away)
  have emptying' : Emptying o checked.sched rest hp' := by
    show Emptying o (sched.checkWakeup o order) rest hp'
    rw [same]
    exact ⟨emptying.linked, emptying.off, emptying.stopped, emptying.awake, emptying.unflagged,
      emptying.wanted, emptying.nodup, emptying.outside⟩
  obtain ⟨s', emptied, released⟩ := emptying'.run rr.nonneg annotated running goto_pc_self
  refine ⟨rest.length + hp'.length + 1, s', ?_, released.of_same ?_ fun t => ?_⟩
  · show (s.step o _).bind _ = _
    rw [gave]
    show (gone.step o _).bind _ = _
    rw [looked]
    exact emptied
  · show (sched.checkWakeup o order).waitq = _
    rw [same]
    exact waitq
  · show ((sched.checkWakeup o order).waits t).chan = _
    rw [same]
    exact chan t

/-- `check_wakeup` posts threads at most: it does not write what they wait on. -/
theorem checkWakeup_chan (order : List Tid) (t : Tid) :
    ((sched.checkWakeup o order).waits t).chan = (sched.waits t).chan := by
  have each : ∀ (sched : Sched) u, ((sched.bringBack o u).waits t).chan = (sched.waits t).chan := by
    intro sched u
    unfold Sched.bringBack
    split
    · rfl
    · dsimp only
      split <;> split <;> simp [Sched.eraseNonDet, Sched.returnToRunq, Sched.pushRunq]
  have all : ((order.foldl (Sched.bringBack o) sched).waits t).chan = (sched.waits t).chan := by
    induction order generalizing sched with
    | nil => rfl
    | cons u order ih => exact ih.trans (each sched u)
  unfold Sched.checkWakeup
  split
  · exact all
  · rfl

/-- **Without run queues** the regions stay closed. -/
theorem stay_closed_without_queues (tond : o.enforceTurnType < 0) (running : Running s)
    (here : s.pc idleThreadTid = .turn false) {order : List Tid}
    (perm : order.Perm s.sched.interProWakeupTids) :
    ∃ s', exec (Sys.step o) s [(idleThreadTid, .putTurn .default), (idleThreadTid, .checkWakeup order)] =
        some s' ∧ s'.pc idleThreadTid = .away ∧ StayClosed s.sched s'.sched := by
  have noQueues : ¬ 0 ≤ o.enforceTurnType := by omega
  have left : s.sched.putTurn o idleThreadTid .default = some (s.sched.checkNonDetBound o) :=
    if_neg noQueues
  obtain ⟨sameCore, side⟩ : (s.sched.checkNonDetBound o).toCore = s.sched.toCore ∧
      (s.sched.checkNonDetBound o).interProWakeupTids = s.sched.interProWakeupTids := by
    unfold Sched.checkNonDetBound
    split
    · split <;> simp [Sched.eraseNonDet, Sched.readClock]
    · exact ⟨rfl, rfl⟩
  have gave := step_putTurn running here left
  set gone := s.goto idleThreadTid (s.sched.checkNonDetBound o) (.leaving .checking false .default .away)
  have looked := step_checkWakeup (o := o) (s := gone) running goto_pc_self (side ▸ perm)
  rw [if_neg noQueues] at looked
  set ended := gone.goto idleThreadTid { gone.sched.checkWakeup o order with inSync := false } .away
  refine ⟨ended, ?_, goto_pc_self, ?_, fun t => ?_⟩
  · show (s.step o _).bind _ = _
    rw [gave]
    show (gone.step o _).bind some = _
    rw [looked]
    rfl
  · show ((s.sched.checkNonDetBound o).checkWakeup o order).waitq = _
    rw [Handing.checkWakeup_waitq, sameCore]
  · show (((s.sched.checkNonDetBound o).checkWakeup o order).waits t).chan = _
    rw [checkWakeup_chan, sameCore]

/-- **Entering a non-det region.** The idle thread has the turn, and every other thread waits or is
outside. With run queues, and when nothing is put behind the idle thread, its `putTurn` leaves nobody on
`nonDetCV`, and everybody who was there is in a run queue. Without run queues it leaves everybody there. -/
theorem non_det_regions_open (o : Options) (mainTh : PthreadT) (labels : List (Tid × Action)) (s : Sys)
    (ran : exec (Sys.step o) (Sys.init o mainTh) labels = some s) (running : Running s)
    (annotated : o.enforceNonDetAnnotations = true) (wanted : 0 < s.sched.nNonDetWait)
    (here : s.pc idleThreadTid = .turn false) (paused : AllPaused s) (order : List Tid)
    (perm : order.Perm s.sched.interProWakeupTids) :
    (o.RoundRobin → Along (Sys.step o) (QueueSafe o) (Sys.init o mainTh) labels → Sealed o s →
      ∃ rounds s', exec (Sys.step o) s (idlePutTurn order rounds) = some s' ∧
        s.sched.Released s'.sched) ∧
    (o.enforceTurnType < 0 →
      ∃ s', exec (Sys.step o) s [(idleThreadTid, .putTurn .default),
          (idleThreadTid, .checkWakeup order)] = some s' ∧ s'.pc idleThreadTid = .away ∧
        StayClosed s.sched s'.sched) := by
  refine ⟨fun rr safe closed => ?_, fun tond => stay_closed_without_queues tond running here perm⟩
  obtain ⟨runq, hp, holder, inv⟩ : Inv.Holds o ⟨False, False⟩ s :=
    Inv.run rr (fun s label _ fine => ⟨fine, False.elim, False.elim⟩) safe ran
  exact opens_with_queues rr inv running annotated wanted here paused closed perm

/-- The main thread makes the idle thread, and waits to enter a non-det region. -/
def enterRegion (rounds : Nat) : List (Tid × Action) :=
  enterTurn 0 ++ [(0, .create 101 7), (0, .nonDetWait true), (0, .wait .nonDetCV forever [])] ++
    passTurn 0 rounds ++ enterTurn 1

/-- The options of a process with non-det regions. -/
def regionsWithQueues : Options := { enforceNonDetAnnotations := true }

/-- The idle thread meets itself at once. -/
theorem non_det_regions_open_enterRegion :
    ∃ s rounds s', exec (Sys.step regionsWithQueues)
        (Sys.init regionsWithQueues 100) (enterRegion 1) = some s ∧
      (s.sched.waits 0).chan = some .nonDetCV ∧
      exec (Sys.step regionsWithQueues) s (idlePutTurn [] rounds) = some s' ∧
      s.sched.Released s'.sched := by
  have found : (exec (Sys.step regionsWithQueues)
      (Sys.init regionsWithQueues 100) (enterRegion 1)).any (fun s =>
        decide (Running s) && decide (0 < s.sched.nNonDetWait) && decide (s.pc idleThreadTid = .turn false) &&
        decide (AllPaused s) && decide (s.sched.interProWakeupTids = []) &&
        decide (∀ t < s.sched.tm.nthread, s.pc t = .nonDet → t ∈ s.sched.removed) &&
        decide ((s.sched.waits 0).chan = some .nonDetCV)) = true := by decide +kernel
  obtain ⟨s, ran, facts⟩ := exec_of_any found
  simp only [Bool.and_eq_true, decide_eq_true_eq] at facts
  obtain ⟨⟨⟨⟨⟨⟨running, wanted⟩, here⟩, paused⟩, nobody⟩, regions⟩, waits⟩ := facts
  have closed : Sealed regionsWithQueues s :=
    ⟨fun bound => absurd bound (by decide), regions, fun t inside => absurd inside (by simp [nobody])⟩
  obtain ⟨rounds, s', released⟩ := (non_det_regions_open regionsWithQueues 100
    (enterRegion 1) s ran running rfl wanted here paused [] (by rw [nobody])).1 (by decide)
    (by decide +kernel) closed
  exact ⟨s, rounds, s', ran, waits, released⟩

/-- The options of a process without run queues that has non-det regions. -/
def regionsWithoutQueues : Options := { enforceTurnType := -1, enforceNonDetAnnotations := true }

/-- **Without run queues** the only `signal` on `nonDetCV` is not called: the main thread waits, the idle
thread gives the turn away, and the main thread still waits. -/
theorem non_det_region_stays_closed :
    ∃ s s', exec (Sys.step regionsWithoutQueues) (Sys.init regionsWithoutQueues 100)
        (enterTurn 0 ++ [(0, .create 101 7), (0, .nonDetWait true), (0, .wait .nonDetCV forever []),
          (0, .checkWakeup [])] ++ enterTurn 1) = some s ∧
      Running s ∧ 0 < s.sched.nNonDetWait ∧ s.pc idleThreadTid = .turn false ∧ AllPaused s ∧
      exec (Sys.step regionsWithoutQueues) s
        [(idleThreadTid, .putTurn .default), (idleThreadTid, .checkWakeup [])] = some s' ∧
      s'.pc idleThreadTid = .away ∧ 0 ∈ s'.sched.waitq ∧ (s'.sched.waits 0).chan = some .nonDetCV := by
  have found : (exec (Sys.step regionsWithoutQueues) (Sys.init regionsWithoutQueues 100)
      (enterTurn 0 ++ [(0, .create 101 7), (0, .nonDetWait true), (0, .wait .nonDetCV forever []),
        (0, .checkWakeup [])] ++ enterTurn 1)).any (fun s =>
        decide (Running s ∧ 0 < s.sched.nNonDetWait ∧ s.pc idleThreadTid = .turn false ∧ AllPaused s) &&
        (exec (Sys.step regionsWithoutQueues) s
          [(idleThreadTid, .putTurn .default), (idleThreadTid, .checkWakeup [])]).any fun s' =>
            decide (s'.pc idleThreadTid = .away ∧ 0 ∈ s'.sched.waitq ∧
              (s'.sched.waits 0).chan = some .nonDetCV)) = true := by decide +kernel
  obtain ⟨s, ran, facts⟩ := exec_of_any found
  obtain ⟨before, later⟩ := Bool.and_eq_true_iff.mp facts
  obtain ⟨running, wanted, here, paused⟩ := of_decide_eq_true before
  obtain ⟨s', ran', after⟩ := exec_of_any later
  exact ⟨s, s', ran, running, wanted, here, paused, ran', of_decide_eq_true after⟩

end MinSmt
