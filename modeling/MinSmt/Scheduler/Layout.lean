/-
**Where the threads are**: the layout of the scheduler's queues, and what each method does to it.

`Layout o late s runq hp` says that `runq` and `hp_runq` hold the tids `runq` and `hp`, and that every
live thread is in exactly one of the two run queues, `waitq` and the set of removed threads; a set
`woken_up_from_hp_queue_flag` is only found on the head of `hp_runq`, and the threads in
`inter_pro_wakeup_tids` are live and not waiting. The threads in `non_det_thds` are removed ones; a
thread in `late` is already there although it is still to be removed, as inside `block`.

`Grown o late s s' runq hp` is what a method does that only appends to the run queues: the layout is kept
with longer queues, and `Quiet` says what no such method touches (the status of every thread, its
flag, the slots of the threads that were not waiting). `signal`, `fireTimeouts`, `check_wakeup`,
`incTurnCount` and `checkNonDetBound` are of this kind.

**`check_wakeup` needs a hypothesis**, `NoLone`: no thread that has come back is alone in `hp_runq`.
`runq.in` answers by the links of the element, so for such a thread it answers no.
-/

import MinSmt.Scheduler.RRScheduler

namespace MinSmt

/-- A thread taken from `waitq` goes to `hp_runq`. The tid `1` is the idle thread's. -/
def Options.goesToHp (o : Options) (tid : Tid) : Bool := o.highPriority && tid != 1

namespace Sched

variable {o : Options} {s s' s'' : Sched} {late runq hp : List Tid} {tid : Tid}

/-- A tid that has been created and has not ended. -/
def Live (s : Sched) (t : Tid) : Prop := (s.tm.tToP t).isSome = true

instance (s : Sched) (t : Tid) : Decidable (s.Live t) := inferInstanceAs (Decidable (_ = _))

/-- **The layout of the queues.** -/
structure Layout (o : Options) (late : List Tid) (s : Sched) (runq hp : List Tid) : Prop where
  linked : Linked s.elems s.runq s.hpRunq runq hp
  once : ∀ t, runq.count t + hp.count t + s.waitq.count t + s.removed.count t =
    if s.Live t then 1 else 0
  known : ∀ t, s.Live t → t < s.tm.nthread
  off : o.highPriority = false → hp = []
  flag : ∀ t, (s.waits t).wokenUpFromHpQueueFlag = true → hp.head? = some t
  wakeups : ∀ t ∈ s.interProWakeupTids, s.Live t ∧ t ∉ s.waitq
  wakeupFlag : s.interProWakeupTids ≠ [] → s.interProWakeupFlag = true
  nonDet : ∀ t, s.nonDetThds.tids.count t ≤ s.removed.count t + late.count t
  nonDetOff : o.enforceNonDetClockBound = false → s.nonDetThds.tids = []
  clean : ∀ t, t ∉ s.waitq → (s.waits t).chan = none ∧ (s.waits t).timeout = forever

/-- What the methods that only append to the run queues leave alone. -/
structure Quiet (s s' : Sched) : Prop where
  tm : s'.tm = s.tm
  status : ∀ t, (s'.elems t).status = (s.elems t).status
  waiting : ∀ t ∈ s'.waitq, t ∈ s.waitq
  slot : ∀ t, t ∉ s.waitq ∨ t ∈ s'.waitq → s'.waits t = s.waits t
  flag : ∀ t, (s'.waits t).wokenUpFromHpQueueFlag = (s.waits t).wokenUpFromHpQueueFlag
  sem : ∀ t, (s'.waits t).sem = (s.waits t).sem
  wakenUp : ∀ t, (s'.waits t).wakenUp = true → (s.waits t).wakenUp = true
  wakeups : ∀ t ∈ s'.interProWakeupTids, t ∈ s.interProWakeupTids
  removed : ∀ t ∈ s'.removed, t ∈ s.removed ∨ (s.elems t).status = .interProStop
  back : ∀ t ∈ s.interProWakeupTids, (s.elems t).status ≠ .interProStop →
    t ∈ s'.interProWakeupTids ∨ t ∉ s'.removed

namespace Quiet

theorem refl (s : Sched) : Quiet s s :=
  ⟨rfl, fun _ => rfl, fun _ h => h, fun _ _ => rfl, fun _ => rfl, fun _ => rfl, fun _ h => h,
    fun _ h => h, fun _ => Or.inl, fun _ inside _ => Or.inl inside⟩

theorem trans (first : Quiet s s') (second : Quiet s' s'') : Quiet s s'' := by
  refine ⟨second.tm.trans first.tm, fun t => (second.status t).trans (first.status t),
    fun t inside => first.waiting t (second.waiting t inside), fun t which => ?_,
    fun t => (second.flag t).trans (first.flag t), fun t => (second.sem t).trans (first.sem t),
    fun t posted => first.wakenUp t (second.wakenUp t posted),
    fun t inside => first.wakeups t (second.wakeups t inside), fun t inside => ?_,
    fun t inside awake => ?_⟩
  · rcases which with outside | inside
    · rw [second.slot t (Or.inl fun inside => outside (first.waiting t inside)),
        first.slot t (Or.inl outside)]
    · rw [second.slot t (Or.inr inside), first.slot t (Or.inr (second.waiting t inside))]
  · rcases second.removed t inside with before | stopped
    · exact first.removed t before
    · exact Or.inr (first.status t ▸ stopped)
  · rcases first.back t inside awake with still | gone
    · exact second.back t still (first.status t ▸ awake)
    · refine Or.inr fun removed => ?_
      rcases second.removed t removed with before | stopped
      · exact gone before
      · exact awake (first.status t ▸ stopped)

theorem live (quiet : Quiet s s') (t : Tid) : s'.Live t ↔ s.Live t := by
  unfold Live
  rw [quiet.tm]

end Quiet

/-- **The queues have grown at their ends**, and nothing a thread can see of itself has changed. -/
def Grown (o : Options) (late : List Tid) (s s' : Sched) (runq hp : List Tid) : Prop :=
  ∃ runq' hp', runq <+: runq' ∧ hp <+: hp' ∧ Layout o late s' runq' hp' ∧ Quiet s s'

theorem head_of_prefix {shorter longer : List Tid} (grown : shorter <+: longer)
    (head : shorter.head? = some tid) : longer.head? = some tid :=
  List.singleton_prefix_iff_head?_eq_some.mp
    ((List.singleton_prefix_iff_head?_eq_some.mpr head).trans grown)

theorem Grown.trans (first : Grown o late s s' runq hp)
    (second : ∀ runq' hp', Layout o late s' runq' hp' → hp <+: hp' → Grown o late s' s'' runq' hp') :
    Grown o late s s'' runq hp := by
  obtain ⟨runq', hp', longer, longer', layout, quiet⟩ := first
  obtain ⟨runq'', hp'', further, further', layout', quiet'⟩ := second runq' hp' layout longer'
  exact ⟨runq'', hp'', longer.trans further, longer'.trans further', layout', quiet.trans quiet'⟩

/-! ### Reading the layout -/

namespace Layout

variable (layout : Layout o late s runq hp)

include layout

theorem waitq_nodup : s.waitq.Nodup := by
  refine List.nodup_iff_count_le_one.mpr fun t => ?_
  have once := layout.once t
  split at once <;> omega

theorem runq_live {t : Tid} (member : t ∈ runq) : s.Live t ∧ t ∉ s.waitq ∧ t ∉ s.removed := by
  have once := layout.once t
  have positive := List.count_pos_iff.mpr member
  by_cases live : s.Live t
  · rw [if_pos live] at once
    exact ⟨live, List.count_eq_zero.mp (by omega), List.count_eq_zero.mp (by omega)⟩
  · rw [if_neg live] at once
    omega

theorem hp_live {t : Tid} (member : t ∈ hp) :
    s.Live t ∧ t ∉ s.waitq ∧ t ∉ s.removed ∧ t ∉ runq := by
  have once := layout.once t
  have positive := List.count_pos_iff.mpr member
  by_cases live : s.Live t
  · rw [if_pos live] at once
    exact ⟨live, List.count_eq_zero.mp (by omega), List.count_eq_zero.mp (by omega),
      List.count_eq_zero.mp (by omega)⟩
  · rw [if_neg live] at once
    omega

theorem waitq_live {t : Tid} (member : t ∈ s.waitq) :
    s.Live t ∧ t ∉ runq ∧ t ∉ hp ∧ t ∉ s.removed := by
  have once := layout.once t
  have positive := List.count_pos_iff.mpr member
  by_cases live : s.Live t
  · rw [if_pos live] at once
    exact ⟨live, List.count_eq_zero.mp (by omega), List.count_eq_zero.mp (by omega),
      List.count_eq_zero.mp (by omega)⟩
  · rw [if_neg live] at once
    omega

theorem removed_live {t : Tid} (member : t ∈ s.removed) :
    s.Live t ∧ t ∉ runq ∧ t ∉ hp ∧ t ∉ s.waitq := by
  have once := layout.once t
  have positive := List.count_pos_iff.mpr member
  by_cases live : s.Live t
  · rw [if_pos live] at once
    exact ⟨live, List.count_eq_zero.mp (by omega), List.count_eq_zero.mp (by omega),
      List.count_eq_zero.mp (by omega)⟩
  · rw [if_neg live] at once
    omega

/-- A live thread that is in no queue is a removed one. -/
theorem removed_of_live {t : Tid} (live : s.Live t) (notRunq : t ∉ runq) (notHp : t ∉ hp)
    (notWaiting : t ∉ s.waitq) : t ∈ s.removed := by
  have once := layout.once t
  rw [if_pos live, List.count_eq_zero.mpr notRunq, List.count_eq_zero.mpr notHp,
    List.count_eq_zero.mpr notWaiting] at once
  exact List.count_pos_iff.mp (by omega)

theorem hpRunq_empty_iff : s.hpRunq.empty = true ↔ hp = [] := layout.linked.second.empty_iff

theorem runq_empty_iff : s.runq.empty = true ↔ runq = [] := layout.linked.queue.empty_iff

end Layout

/-! ### Threads taken from the wait queue -/

section MakeRunnable

variable (rr : 0 ≤ o.enforceTurnType)

include rr

/-- **Linking distinct fresh threads into the run queues**: each goes to the end of its queue, in their
order. -/
theorem foldl_makeRunnable_queues {woken : List Tid} (linked : Linked s.elems s.runq s.hpRunq runq hp)
    (distinct : woken.Nodup) (fresh : ∀ t ∈ woken, t ∉ runq ∧ t ∉ hp) :
    ∃ elems q h, woken.foldl (makeRunnable o) s = { s with elems := elems, runq := q, hpRunq := h } ∧
      Linked elems q h (runq ++ woken.filter fun t => !o.goesToHp t) (hp ++ woken.filter o.goesToHp) ∧
      ∀ t, (elems t).status = (s.elems t).status := by
  induction woken generalizing s runq hp with
  | nil =>
    refine ⟨s.elems, s.runq, s.hpRunq, rfl, ?_, fun _ => rfl⟩
    rw [List.filter_nil, List.filter_nil, List.append_nil, List.append_nil]
    exact linked
  | cons tid rest ih =>
    obtain ⟨own, distinct⟩ := List.nodup_cons.mp distinct
    obtain ⟨notRunq, notHp⟩ := fresh tid List.mem_cons_self
    have later : ∀ t ∈ rest, t ≠ tid ∧ t ∉ runq ∧ t ∉ hp := fun t inside =>
      ⟨fun same => own (same ▸ inside), fresh t (List.mem_cons_of_mem _ inside)⟩
    by_cases high : o.goesToHp tid = true
    · have step : s.makeRunnable o tid = s.pushHpRunq tid := by
        rw [makeRunnable, if_pos rr, if_pos (by simpa [Options.goesToHp] using high)]
      have linked' := (linked.symm.pushBack notHp notRunq).symm
      obtain ⟨elems, q, h, result, linked'', status⟩ := @ih (s.pushHpRunq tid) runq (hp ++ [tid]) linked' distinct
        fun t inside => ⟨(later t inside).2.1, by simp [later t inside]⟩
      refine ⟨elems, q, h, ?_, ?_, fun t => ?_⟩
      · rw [List.foldl_cons, step, result]
        rfl
      · rw [List.filter_cons_of_neg (by simp [high]), List.filter_cons_of_pos high, List.append_cons]
        exact linked''
      · rw [status t]
        exact RunQueue.pushBack_status _ _ _ _
    · have step : s.makeRunnable o tid = s.pushRunq tid := by
        rw [makeRunnable, if_pos rr, if_neg (by simpa [Options.goesToHp] using high)]
      have linked' := linked.pushBack notRunq notHp
      obtain ⟨elems, q, h, result, linked'', status⟩ := @ih (s.pushRunq tid) (runq ++ [tid]) hp linked' distinct
        fun t inside => ⟨by simp [later t inside], (later t inside).2.2⟩
      refine ⟨elems, q, h, ?_, ?_, fun t => ?_⟩
      · rw [List.foldl_cons, step, result]
        rfl
      · rw [List.filter_cons_of_pos (by simpa using high), List.filter_cons_of_neg high, List.append_cons runq]
        exact linked''
      · rw [status t]
        exact RunQueue.pushBack_status _ _ _ _

/-- Linking distinct fresh threads, by how often each is in which queue. -/
theorem foldl_makeRunnable (woken : List Tid) (linked : Linked s.elems s.runq s.hpRunq runq hp)
    (off : o.highPriority = false → hp = [])
    (fresh : ∀ t, runq.count t + hp.count t + woken.count t ≤ 1) :
    ∃ elems q h more more', woken.foldl (makeRunnable o) s =
        { s with elems := elems, runq := q, hpRunq := h } ∧
      Linked elems q h (runq ++ more) (hp ++ more') ∧
      (∀ t, more.count t + more'.count t = woken.count t) ∧
      (o.highPriority = false → hp ++ more' = []) ∧
      ∀ t, (elems t).status = (s.elems t).status := by
  have distinct : woken.Nodup := List.nodup_iff_count_le_one.mpr fun t => by
    have own := fresh t
    omega
  have outside : ∀ t ∈ woken, t ∉ runq ∧ t ∉ hp := fun t inside => by
    have own := fresh t
    have positive := List.count_pos_iff.mpr inside
    exact ⟨List.count_eq_zero.mp (by omega), List.count_eq_zero.mp (by omega)⟩
  obtain ⟨elems, q, h, result, linked', status⟩ := foldl_makeRunnable_queues rr linked distinct outside
  refine ⟨elems, q, h, _, _, result, linked', fun t => ?_, fun no => ?_, status⟩
  · rw [← List.count_append]
    exact (List.perm_append_comm.trans (List.filter_append_perm o.goesToHp woken)).count_eq t
  · rw [off no, List.nil_append]
    exact List.filter_eq_nil_iff.mpr fun t _ => by simp [Options.goesToHp, no]

/-- **A pass over `waitq` that links what it takes out into the run queues.** -/
theorem Layout.pass (layout : Layout o late s runq hp) (hit : WaitT → Tid → Bool) (wake : WaitT → WaitT)
    (all : Bool)
    (resets : ∀ w, (wake w).chan = none ∧ (wake w).timeout = forever ∧ (wake w).wakenUp = false ∧
      (wake w).sem = w.sem ∧ (wake w).wokenUpFromHpQueueFlag = w.wokenUpFromHpQueueFlag) :
    Grown o late s ((s.toCore.pass hit wake all).2.foldl (makeRunnable o)
      { s with toCore := (s.toCore.pass hit wake all).1 }) runq hp := by
  have nodup := layout.waitq_nodup
  have counts := fun t => @scan_count hit wake all s.waits s.waitq t
  have kept := fun t => @scan_kept_iff hit wake all s.waits s.waitq nodup t
  set result := scan hit wake all s.waits s.waitq with isResult
  have once := layout.once
  obtain ⟨elems, q, h, more, more', folded, linked, moved, off, status⟩ :=
    @foldl_makeRunnable o { s with toCore := (s.toCore.pass hit wake all).1 } runq hp rr result.woken
      layout.linked layout.off (by
        intro t
        have own := once t
        have count := counts t
        split at own <;> omega)
  have flags : ∀ t, (result.waits t).wokenUpFromHpQueueFlag =
      (s.waits t).wokenUpFromHpQueueFlag ∧ (result.waits t).sem = (s.waits t).sem ∧
      ((result.waits t).wakenUp = true → (s.waits t).wakenUp = true) := by
    intro t
    by_cases woken : t ∈ result.woken
    · rw [isResult, scan_wake nodup woken]
      obtain ⟨_, _, unposted, sem, flag⟩ := resets (s.waits t)
      exact ⟨flag, sem, fun posted => by simp [unposted] at posted⟩
    · rw [isResult, scan_frame _ woken]
      exact ⟨rfl, rfl, fun posted => posted⟩
  refine ⟨runq ++ more, hp ++ more', List.prefix_append _ _, List.prefix_append _ _, ?_, ?_⟩
  · show Layout o late (result.woken.foldl (makeRunnable o) _) _ _
    rw [folded]
    refine ⟨linked, ?_, layout.known, off, ?_, ?_, layout.wakeupFlag, layout.nonDet,
      layout.nonDetOff, ?_⟩
    · intro t
      have own := once t
      have count := counts t
      have move := moved t
      show (runq ++ more).count t + (hp ++ more').count t + result.kept.count t +
        s.removed.count t = if s.Live t then 1 else 0
      rw [List.count_append, List.count_append]
      omega
    · intro t set
      have head := layout.flag t ((flags t).1 ▸ set)
      exact head_of_prefix (List.prefix_append _ _) head
    · intro t inside
      obtain ⟨live, outside⟩ := layout.wakeups t inside
      exact ⟨live, fun stays => outside (scan_kept_subset _ _ stays)⟩
    · intro t outside
      by_cases woken : t ∈ result.woken
      · show (result.waits t).chan = none ∧ (result.waits t).timeout = forever
        rw [isResult, scan_wake nodup woken]
        exact ⟨(resets _).1, (resets _).2.1⟩
      · show (result.waits t).chan = none ∧ (result.waits t).timeout = forever
        rw [isResult, scan_frame _ woken]
        exact layout.clean t fun inside => outside ((kept t).mpr ⟨inside, woken⟩)
  · show Quiet s (result.woken.foldl (makeRunnable o) _)
    rw [folded]
    refine ⟨rfl, status, fun t inside => scan_kept_subset _ _ inside, ?_, fun t => (flags t).1,
      fun t => (flags t).2.1, fun t => (flags t).2.2, fun _ inside => inside, fun _ => Or.inl,
      fun _ inside _ => Or.inl inside⟩
    intro t which
    refine scan_frame _ fun woken => ?_
    rcases which with outside | inside
    · exact outside (scan_woken_subset _ _ woken)
    · exact ((kept t).mp inside).2 woken

/-- **`signal` only appends to the run queues.** -/
theorem Layout.signal (layout : Layout o late s runq hp) (chan : Chan) (all : Bool) :
    Grown o late s (s.signal o chan all) runq hp :=
  layout.pass rr _ _ _ fun _ => ⟨rfl, rfl, rfl, rfl, rfl⟩

/-- **`fireTimeouts` only appends to the run queues.** -/
theorem Layout.fireTimeouts (layout : Layout o late s runq hp) :
    Grown o late s (s.fireTimeouts o) runq hp :=
  layout.pass rr _ _ _ fun _ => ⟨rfl, rfl, rfl, rfl, rfl⟩

end MakeRunnable

/-! ### Threads back from an external call -/

/-- No thread that has come back is the one element of `hp_runq`. -/
def NoLone (s : Sched) : Prop :=
  ∀ t ∈ s.interProWakeupTids, s.hpRunq.head = some t →
    (s.elems t).prev ≠ none ∨ (s.elems t).next ≠ none

instance (s : Sched) : Decidable s.NoLone := inferInstanceAs (Decidable (∀ _ ∈ _, _ → _))

/-- Only a single element has no links. -/
theorem NoLone.linked (noLone : s.NoLone) (layout : Layout o late s runq hp) {t : Tid}
    (back : t ∈ s.interProWakeupTids) (member : t ∈ hp) :
    (s.elems t).prev ≠ none ∨ (s.elems t).next ≠ none := by
  rcases layout.linked.second.queue.linked member with hasPrev | hasNext | ⟨isHead, _⟩
  · exact Or.inl hasPrev
  · exact Or.inr hasNext
  · exact noLone t back isHead

/-- **A removed thread is appended to `runq`**, by `check_wakeup` or by `checkNonDetBound`. -/
theorem Layout.returnToRunq (layout : Layout o late s runq hp) (member : tid ∈ s.removed) :
    Layout o late (if o.enforceNonDetClockBound then (s.returnToRunq tid).eraseNonDet tid
      else s.returnToRunq tid) (runq ++ [tid]) hp := by
  obtain ⟨_, notRunq, notHp, _⟩ := layout.removed_live member
  have linked := layout.linked.pushBack notRunq notHp
  have once : ∀ t, (runq ++ [tid]).count t + hp.count t + s.waitq.count t +
      (s.removed.erase tid).count t = if s.Live t then 1 else 0 := by
    intro t
    rw [← layout.once t, List.count_append, List.count_singleton, List.count_erase]
    by_cases same : t = tid
    · subst same
      have positive := List.count_pos_iff.mpr member
      rw [if_pos (beq_self_eq_true t)]
      omega
    · rw [if_neg (by simp [Ne.symm same])]
      omega
  cases bound : o.enforceNonDetClockBound with
  | false =>
    refine ⟨linked, once, layout.known, layout.off, layout.flag, layout.wakeups,
      layout.wakeupFlag, fun t => ?_, fun _ => layout.nonDetOff bound, layout.clean⟩
    show s.nonDetThds.tids.count t ≤ _
    rw [layout.nonDetOff bound]
    exact Nat.zero_le _
  | true =>
    refine ⟨linked, once, layout.known, layout.off, layout.flag, layout.wakeups,
      layout.wakeupFlag, fun t => ?_, fun no => absurd no (by simp [bound]), layout.clean⟩
    have few := layout.nonDet t
    have positive := List.count_pos_iff.mpr member
    show (s.nonDetThds.erase tid).tids.count t ≤ (s.removed.erase tid).count t + late.count t
    rw [NonDetSet.erase, List.count_erase]
    by_cases inside : tid ∈ s.nonDetThds.tids
    · rw [if_pos inside]
      show (s.nonDetThds.tids.erase tid).count t ≤ _
      rw [List.count_erase]
      omega
    · rw [if_neg inside]
      by_cases same : t = tid
      · subst same
        rw [List.count_eq_zero.mpr inside]
        exact Nat.zero_le _
      · rw [if_neg (by simp [Ne.symm same])]
        omega

theorem quiet_returnToRunq : Quiet s (if o.enforceNonDetClockBound then
    (s.returnToRunq tid).eraseNonDet tid else s.returnToRunq tid) := by
  cases o.enforceNonDetClockBound <;>
    exact ⟨rfl, fun t => RunQueue.pushBack_status _ _ _ _, fun _ h => h, fun _ _ => rfl,
      fun _ => rfl, fun _ => rfl, fun _ h => h, fun _ h => h,
      fun _ inside => Or.inl (List.mem_of_mem_erase inside), fun _ inside _ => Or.inl inside⟩

/-- The turn counter is not part of the layout. -/
theorem Layout.tick (layout : Layout o late s runq hp) :
    Layout o late { s with toCore := s.toCore.tick } runq hp :=
  ⟨layout.linked, layout.once, layout.known, layout.off, layout.flag, layout.wakeups,
    layout.wakeupFlag, layout.nonDet, layout.nonDetOff, layout.clean⟩

/-- `fireTimeouts` does not touch the side set. -/
theorem foldl_makeRunnable_wakeups (woken : List Tid) :
    (woken.foldl (makeRunnable o) s).interProWakeupTids = s.interProWakeupTids := by
  induction woken generalizing s with
  | nil => rfl
  | cons tid rest ih =>
    rw [List.foldl_cons, ih, makeRunnable]
    split
    · split <;> rfl
    · rfl

theorem tickAndFire_wakeups : (s.tickAndFire o).interProWakeupTids = s.interProWakeupTids :=
  foldl_makeRunnable_wakeups _

/-- A live thread that neither waits nor is found in `runq` has been removed. -/
theorem Layout.removed_of_not_isIn (layout : Layout o late s runq hp) (live : s.Live tid) (outside : tid ∉ s.waitq)
    (inHp : tid ∈ hp → (s.elems tid).prev ≠ none ∨ (s.elems tid).next ≠ none)
    (notIn : ¬ s.runq.isIn s.elems tid = true) : tid ∈ s.removed := by
  have answer := @Linked.isIn_iff _ _ _ _ _ tid layout.linked
  exact layout.removed_of_live live (fun member => notIn (answer.mpr (Or.inl member)))
    (fun member => notIn (answer.mpr (Or.inr ⟨member, inHp member⟩))) outside

section Appending

variable (rr : 0 ≤ o.enforceTurnType)

include rr

/-- One round of the loop of `check_wakeup`. -/
theorem Layout.bringBack (layout : Layout o late s runq hp) (live : s.Live tid) (outside : tid ∉ s.waitq)
    (inHp : tid ∈ hp → (s.elems tid).prev ≠ none ∨ (s.elems tid).next ≠ none) :
    ∃ more, Layout o late (s.bringBack o tid) (runq ++ more) hp ∧ Quiet s (s.bringBack o tid) ∧
      (∀ t ∈ hp, (s.bringBack o tid).elems t = s.elems t) ∧ (s.bringBack o tid).waitq = s.waitq ∧
      (tid ∈ runq ++ more ∨ tid ∈ hp) := by
  have answer := @Linked.isIn_iff _ _ _ _ _ tid layout.linked
  unfold Sched.bringBack
  by_cases inside : s.runq.isIn s.elems tid = true
  · rw [if_pos inside]
    rcases answer.mp inside with member | ⟨member, _⟩
    · refine ⟨[], ?_, Quiet.refl s, fun _ _ => rfl, rfl, Or.inl (List.mem_append_left _ member)⟩
      rw [List.append_nil]
      exact layout
    · refine ⟨[], ?_, Quiet.refl s, fun _ _ => rfl, rfl, Or.inr member⟩
      rw [List.append_nil]
      exact layout
  · have member := layout.removed_of_not_isIn live outside inHp inside
    have notHp := (layout.removed_live member).2.2.1
    rw [if_neg inside, if_pos rr]
    refine ⟨[tid], layout.returnToRunq member, quiet_returnToRunq, fun t inHp => ?_, ?_,
      Or.inl (List.mem_append_right _ List.mem_cons_self)⟩
    · have frame : (s.runq.pushBack s.elems tid).1 t = s.elems t := by
        refine RunQueue.pushBack_of_ne (fun same => notHp (same ▸ inHp)) fun isTail => ?_
        rw [layout.linked.queue.queue.tail_eq] at isTail
        exact layout.linked.apart t (List.mem_of_getLast? isTail) inHp
      cases o.enforceNonDetClockBound <;> exact frame
    · cases o.enforceNonDetClockBound <;> rfl

/-- Bringing one thread back leaves the others of the side set as they were. -/
theorem Layout.bringBack_known (layout : Layout o late s runq hp) {rest : List Tid}
    (known : ∀ t ∈ tid :: rest, s.Live t ∧ t ∉ s.waitq ∧
      (t ∈ hp → (s.elems t).prev ≠ none ∨ (s.elems t).next ≠ none)) :
    ∀ t ∈ rest, (s.bringBack o tid).Live t ∧ t ∉ (s.bringBack o tid).waitq ∧
      (t ∈ hp → ((s.bringBack o tid).elems t).prev ≠ none ∨ ((s.bringBack o tid).elems t).next ≠ none) := by
  obtain ⟨live, outside, inHp⟩ := known tid List.mem_cons_self
  obtain ⟨more, -, quiet, frame, waitq, -⟩ := layout.bringBack rr live outside inHp
  intro t inside
  obtain ⟨live, outside, inHp⟩ := known t (List.mem_cons_of_mem _ inside)
  refine ⟨(quiet.live t).mpr live, waitq ▸ outside, fun member => ?_⟩
  rw [frame t member]
  exact inHp member

/-- The loop of `check_wakeup`: every thread it visits is in a run queue afterwards. -/
theorem Layout.foldl_bringBack (layout : Layout o late s runq hp) {order : List Tid}
    (known : ∀ t ∈ order, s.Live t ∧ t ∉ s.waitq ∧
      (t ∈ hp → (s.elems t).prev ≠ none ∨ (s.elems t).next ≠ none)) :
    ∃ more, Layout o late (order.foldl (Sched.bringBack o) s) (runq ++ more) hp ∧
      Quiet s (order.foldl (Sched.bringBack o) s) ∧ ∀ t ∈ order, t ∈ runq ++ more ∨ t ∈ hp := by
  induction order generalizing s runq with
  | nil =>
    refine ⟨[], ?_, Quiet.refl s, fun t inside => absurd inside List.not_mem_nil⟩
    rw [List.append_nil]
    exact layout
  | cons tid rest ih =>
    obtain ⟨live, outside, inHp⟩ := known tid List.mem_cons_self
    obtain ⟨more, layout', quiet, -, -, queued⟩ := layout.bringBack rr live outside inHp
    obtain ⟨more', layout'', quiet', queued'⟩ := ih layout' (layout.bringBack_known rr known)
    rw [List.append_assoc] at layout'' queued'
    refine ⟨more ++ more', layout'', quiet.trans quiet', fun t inside => ?_⟩
    rcases List.mem_cons.mp inside with rfl | later
    · rw [← List.append_assoc]
      exact queued.imp_left fun member => List.mem_append_left _ member
    · exact queued' t later

/-- **`check_wakeup` only appends to `runq`**, and empties the side set. -/
theorem Layout.checkWakeup (layout : Layout o late s runq hp) (noLone : s.NoLone) {order : List Tid}
    (perm : order.Perm s.interProWakeupTids) :
    (∃ more, Layout o late (s.checkWakeup o order) (runq ++ more) hp) ∧
      Quiet s (s.checkWakeup o order) ∧ (s.checkWakeup o order).interProWakeupTids = [] := by
  unfold Sched.checkWakeup
  by_cases flagged : s.interProWakeupFlag = true
  · rw [if_pos flagged]
    obtain ⟨more, layout', quiet, queued⟩ := layout.foldl_bringBack rr fun t inside =>
      have back := perm.mem_iff.mp inside
      ⟨(layout.wakeups t back).1, (layout.wakeups t back).2, noLone.linked layout back⟩
    refine ⟨⟨more, ?_⟩, ?_, rfl⟩
    · exact ⟨layout'.linked, layout'.once, layout'.known, layout'.off, layout'.flag,
        fun t inside => absurd inside List.not_mem_nil, fun some => absurd rfl some,
        layout'.nonDet, layout'.nonDetOff, layout'.clean⟩
    · refine ⟨quiet.tm, quiet.status, quiet.waiting, quiet.slot, quiet.flag, quiet.sem,
        quiet.wakenUp, fun t inside => absurd inside List.not_mem_nil, quiet.removed,
        fun t inside _ => Or.inr ?_⟩
      rcases queued t (perm.mem_iff.mpr inside) with member | member
      · exact (layout'.runq_live member).2.2
      · exact (layout'.hp_live member).2.2.1
  · rw [if_neg flagged]
    have none : s.interProWakeupTids = [] := by
      by_contra some
      exact flagged (layout.wakeupFlag some)
    exact ⟨⟨[], by rw [List.append_nil]; exact layout⟩, Quiet.refl s, none⟩

/-- `incTurnCount` up to its `check_wakeup`. -/
theorem Layout.tickAndFire (layout : Layout o late s runq hp) :
    Grown o late s (s.tickAndFire o) runq hp := by
  obtain ⟨runq', hp', longer, longer', layout', quiet⟩ :=
    layout.tick.fireTimeouts rr
  exact ⟨runq', hp', longer, longer', layout', ⟨quiet.tm, quiet.status, quiet.waiting, quiet.slot,
    quiet.flag, quiet.sem, quiet.wakenUp, quiet.wakeups, quiet.removed, quiet.back⟩⟩

/-- **`incTurnCount` only appends to the run queues**, and empties the side set. -/
theorem Layout.incTurnCount (layout : Layout o late s runq hp) (noLone : (s.tickAndFire o).NoLone)
    {order : List Tid} (perm : order.Perm s.interProWakeupTids) :
    Grown o late s (s.incTurnCount o order) runq hp ∧
      (s.incTurnCount o order).interProWakeupTids = [] := by
  have fired := layout.tickAndFire rr
  refine ⟨fired.trans fun runq' hp' layout' _ => ?_, ?_⟩
  · rw [← @tickAndFire_wakeups o s] at perm
    obtain ⟨⟨more, layout''⟩, quiet, _⟩ := layout'.checkWakeup rr noLone perm
    exact ⟨runq' ++ more, hp', List.prefix_append _ _, List.prefix_refl _, layout'', quiet⟩
  · obtain ⟨runq', hp', _, _, layout', _⟩ := fired
    rw [← @tickAndFire_wakeups o s] at perm
    exact (layout'.checkWakeup rr noLone perm).2.2

omit rr in
/-- `get_clock` may make an entry in the map, which is not part of the layout. -/
theorem Layout.readClock (layout : Layout o late s runq hp) (tid : Tid) :
    Layout o late (s.readClock tid) runq hp ∧ Quiet s (s.readClock tid) :=
  ⟨⟨layout.linked, layout.once, layout.known, layout.off, layout.flag, layout.wakeups, layout.wakeupFlag,
      layout.nonDet, layout.nonDetOff, layout.clean⟩,
    ⟨rfl, fun _ => rfl, fun _ h => h, fun _ _ => rfl, fun _ => rfl, fun _ => rfl, fun _ h => h, fun _ h => h,
      fun _ => Or.inl, fun _ inside _ => Or.inl inside⟩⟩

/-- **`checkNonDetBound` only appends to `runq`.** -/
theorem Layout.checkNonDetBound (layout : Layout o [] s runq hp) :
    (∃ more, Layout o [] (s.checkNonDetBound o) (runq ++ more) hp) ∧
      Quiet s (s.checkNonDetBound o) := by
  have idle : (∃ more, Layout o [] s (runq ++ more) hp) ∧ Quiet s s :=
    ⟨⟨[], by rw [List.append_nil]; exact layout⟩, Quiet.refl s⟩
  unfold Sched.checkNonDetBound
  simp only [if_pos rr]
  split
  · rename_i tid rest bound isFirst
    obtain ⟨read, same⟩ := layout.readClock tid
    split
    · have few := layout.nonDet tid
      rw [isFirst, List.count_cons_self, List.count_nil] at few
      have member : tid ∈ s.removed := List.count_pos_iff.mp (by omega)
      have returned := read.returnToRunq member
      have quiet := @quiet_returnToRunq o (s.readClock tid) tid
      rw [bound] at returned quiet
      exact ⟨⟨[tid], returned⟩, same.trans quiet⟩
    · exact ⟨⟨[], by rw [List.append_nil]; exact read⟩, same⟩
  · exact idle

end Appending

end Sched

end MinSmt
