/-
**Giving up the turn**: what `putTurn`, `wait`, `block`, `create` and `nextRunnable` do to the layout
of the queues.

A thread that gives up the turn first takes its own element off the queue its flag names. It stands
at the front of that queue (`AtFront`), so `pop_front` removes its own element and no other
(`popOwn_spec`); what is left is put together again by each operation in its own way
(`Layout.requeue`, `Layout.wait`, `Layout.block`, `Layout.putTurnAtEnd`).

`Moved tid s s'` is the frame of these operations: only the thread `tid` sees a difference.

* `Layout.nextRunnable` — one round of the loop. A round that ends keeps the layout and the thread it
  returns is at the front of its queue, not in an external call.

**`nextRunnable` needs a hypothesis**, `NoStale`: the head that the first branch pops does not carry
its flag. The pop does not clear the flag.
-/

import MinSmt.Scheduler.Layout

namespace MinSmt

namespace Sched

variable {o : Options} {s s' s'' : Sched} {late runq hp : List Tid} {tid : Tid}

/-- The thread is the front of `hp_runq` when its flag is set, and of `runq` otherwise. -/
def AtFront (s : Sched) (runq hp : List Tid) (t : Tid) : Prop :=
  if (s.waits t).wokenUpFromHpQueueFlag then hp.head? = some t else runq.head? = some t

/-- The front element of the queue that the thread's flag names. -/
def front (s : Sched) (t : Tid) : Option Tid :=
  if (s.waits t).wokenUpFromHpQueueFlag then s.hpRunq.head else s.runq.head

theorem Layout.atFront_iff (layout : Layout o late s runq hp) {t : Tid} :
    AtFront s runq hp t ↔ s.front t = some t := by
  unfold AtFront front
  rw [layout.linked.queue.head_eq, layout.linked.second.head_eq]
  split <;> exact Iff.rfl

theorem AtFront.mono {runq' hp' : List Tid} (front : AtFront s runq hp tid)
    (longer : runq <+: runq') (longer' : hp <+: hp')
    (same : (s'.waits tid).wokenUpFromHpQueueFlag = (s.waits tid).wokenUpFromHpQueueFlag) :
    AtFront s' runq' hp' tid := by
  unfold AtFront at front ⊢
  rw [same]
  split
  · rename_i set
    rw [if_pos set] at front
    exact head_of_prefix longer' front
  · rename_i unset
    rw [if_neg unset] at front
    exact head_of_prefix longer front

theorem AtFront.member (front : AtFront s runq hp tid) : tid ∈ runq ∨ tid ∈ hp := by
  unfold AtFront at front
  split at front
  · exact Or.inr (List.mem_of_head? front)
  · exact Or.inl (List.mem_of_head? front)

/-! ### What one thread's move leaves alone -/

/-- **The frame of the operations of one thread.** -/
structure Moved (tid : Tid) (s s' : Sched) : Prop where
  live : ∀ t, t ≠ tid → (s'.Live t ↔ s.Live t)
  status : ∀ t, t ≠ tid → (s'.elems t).status = (s.elems t).status
  waiting : ∀ t, t ≠ tid → t ∈ s'.waitq → t ∈ s.waitq
  slot : ∀ t, t ≠ tid → t ∉ s.waitq ∨ t ∈ s'.waitq → s'.waits t = s.waits t
  sem : ∀ t, (s'.waits t).sem = (s.waits t).sem
  wakenUp : ∀ t, (s'.waits t).wakenUp = true → (s.waits t).wakenUp = true
  wakeups : ∀ t ∈ s'.interProWakeupTids, t ∈ s.interProWakeupTids
  removed : ∀ t, t ≠ tid → t ∈ s'.removed → t ∈ s.removed ∨ (s.elems t).status = .interProStop
  back : ∀ t, t ≠ tid → t ∈ s.interProWakeupTids → (s.elems t).status ≠ .interProStop →
    t ∈ s'.interProWakeupTids ∨ t ∉ s'.removed

theorem Quiet.moved (quiet : Quiet s s') (tid : Tid) : Moved tid s s' :=
  ⟨fun t _ => quiet.live t, fun t _ => quiet.status t, fun t _ => quiet.waiting t,
    fun t _ => quiet.slot t, quiet.sem, quiet.wakenUp, quiet.wakeups, fun t _ => quiet.removed t,
    fun t _ => quiet.back t⟩

theorem Moved.trans (first : Moved tid s s') (second : Moved tid s' s'') : Moved tid s s'' := by
  refine ⟨fun t other => (second.live t other).trans (first.live t other),
    fun t other => (second.status t other).trans (first.status t other),
    fun t other inside => first.waiting t other (second.waiting t other inside),
    fun t other which => ?_, fun t => (second.sem t).trans (first.sem t),
    fun t posted => first.wakenUp t (second.wakenUp t posted),
    fun t inside => first.wakeups t (second.wakeups t inside), fun t other inside => ?_,
    fun t other inside awake => ?_⟩
  · rcases which with outside | inside
    · rw [second.slot t other (Or.inl fun inside => outside (first.waiting t other inside)),
        first.slot t other (Or.inl outside)]
    · rw [second.slot t other (Or.inr inside),
        first.slot t other (Or.inr (second.waiting t other inside))]
  · rcases second.removed t other inside with before | stopped
    · exact first.removed t other before
    · exact Or.inr (first.status t other ▸ stopped)
  · rcases first.back t other inside awake with still | gone
    · exact second.back t other still (first.status t other ▸ awake)
    · refine Or.inr fun removed => ?_
      rcases second.removed t other removed with before | stopped
      · exact gone before
      · exact awake (first.status t other ▸ stopped)

/-- The slot of a thread with its flag cleared. -/
def clearFlag (waits : Tid → WaitT) (tid : Tid) : Tid → WaitT :=
  Function.update waits tid { waits tid with wokenUpFromHpQueueFlag := false }

theorem clearFlag_of_ne (waits : Tid → WaitT) {t : Tid} (other : t ≠ tid) :
    clearFlag waits tid t = waits t := Function.update_of_ne other _ _

theorem clearFlag_fields (waits : Tid → WaitT) (tid t : Tid) :
    (clearFlag waits tid t).chan = (waits t).chan ∧
      (clearFlag waits tid t).timeout = (waits t).timeout ∧
      (clearFlag waits tid t).sem = (waits t).sem ∧
      (clearFlag waits tid t).wakenUp = (waits t).wakenUp := by
  by_cases same : t = tid
  · subst same
    simp [clearFlag]
  · rw [clearFlag_of_ne waits same]
    exact ⟨rfl, rfl, rfl, rfl⟩

/-! ### Taking the own element off -/

/-- What is left of the queues when a thread has taken its own element off. -/
structure Popped (o : Options) (s : Sched) (runq hp : List Tid) (tid : Tid) (elems : Elems)
    (q h : RunQueue) (runq' hp' : List Tid) : Prop where
  linked : Linked elems q h runq' hp'
  counts : ∀ t, runq'.count t + hp'.count t + (if t = tid then 1 else 0) =
    runq.count t + hp.count t
  off : o.highPriority = false → hp' = []
  flag : ∀ t, (clearFlag s.waits tid t).wokenUpFromHpQueueFlag = true → hp'.head? = some t
  status : ∀ t, (elems t).status = (s.elems t).status

theorem count_tail {t : Tid} {front : Tid} {rest : List Tid} :
    rest.count t + (if t = front then 1 else 0) = (front :: rest).count t := by
  rw [List.count_cons]
  by_cases same : t = front
  · subst same
    simp
  · rw [if_neg same, if_neg (by simp [Ne.symm same])]

/-- **`pop_front` on the queue the flag names takes off its head**, which is the caller. -/
theorem popOwn_head (linked : Linked s.elems s.runq s.hpRunq runq hp) (front : AtFront s runq hp tid) :
    ∃ elems q h runq' hp',
      s.popOwn tid = some { s with
        elems := elems, runq := q, hpRunq := h, waits := clearFlag s.waits tid } ∧
      Linked elems q h runq' hp' ∧ (∀ t, (elems t).status = (s.elems t).status) ∧
      (((s.waits tid).wokenUpFromHpQueueFlag = true ∧ runq' = runq ∧ hp = tid :: hp') ∨
        ((s.waits tid).wokenUpFromHpQueueFlag = false ∧ runq = tid :: runq' ∧ hp' = hp)) := by
  unfold AtFront at front
  by_cases set : (s.waits tid).wokenUpFromHpQueueFlag = true
  · rw [if_pos set] at front
    obtain ⟨rest, rfl⟩ := List.head?_eq_some_iff.mp front
    obtain ⟨elems, h, popped, linked', status⟩ := linked.symm.popFront
    refine ⟨elems, s.runq, h, runq, rest, ?_, linked'.symm, status, Or.inl ⟨set, rfl, rfl⟩⟩
    rw [popOwn, if_pos set, popHpRunq, popped]
    rfl
  · rw [if_neg set] at front
    obtain ⟨rest, rfl⟩ := List.head?_eq_some_iff.mp front
    obtain ⟨elems, q, popped, linked', status⟩ := linked.popFront
    have unchanged : clearFlag s.waits tid = s.waits := by
      funext t
      by_cases same : t = tid
      · subst same
        rw [clearFlag, Function.update_self]
        cases slot : s.waits t
        simp_all
      · exact clearFlag_of_ne s.waits same
    refine ⟨elems, q, s.hpRunq, rest, hp, ?_, linked', status, Or.inr ⟨by simpa using set, rfl, rfl⟩⟩
    rw [popOwn, if_neg set, popRunq, popped, unchanged]
    rfl

/-- **`pop_front` on the queue the flag names removes the caller's own element.** -/
theorem popOwn_spec (linked : Linked s.elems s.runq s.hpRunq runq hp)
    (off : o.highPriority = false → hp = [])
    (flag : ∀ t, (s.waits t).wokenUpFromHpQueueFlag = true → hp.head? = some t)
    (front : AtFront s runq hp tid) :
    ∃ elems q h runq' hp',
      s.popOwn tid = some { s with
        elems := elems, runq := q, hpRunq := h, waits := clearFlag s.waits tid } ∧
      Popped o s runq hp tid elems q h runq' hp' := by
  have others : ∀ t, (clearFlag s.waits tid t).wokenUpFromHpQueueFlag = true →
      t ≠ tid ∧ hp.head? = some t := by
    intro t set
    by_cases same : t = tid
    · subst same
      simp [clearFlag] at set
    · rw [clearFlag_of_ne s.waits same] at set
      exact ⟨same, flag t set⟩
  obtain ⟨elems, q, h, runq', hp', popped, linked', status, ⟨-, rfl, rfl⟩ | ⟨-, rfl, rfl⟩⟩ :=
    popOwn_head linked front
  · refine ⟨elems, q, h, runq', hp', popped, linked', fun t => ?_, fun no => ?_, fun t set => ?_, status⟩
    · rw [Nat.add_assoc, count_tail]
    · exact absurd (off no) (List.cons_ne_nil _ _)
    · obtain ⟨other, head⟩ := others t set
      exact absurd (Option.some.inj head).symm other
  · refine ⟨elems, q, h, runq', hp', popped, linked', fun t => ?_, off, fun t set => (others t set).2,
      status⟩
    rw [← count_tail]
    omega

/-! ### The operations that give up the turn -/

theorem Layout.setStatus (layout : Layout o [] s runq hp) (t : Tid) (status : ThdStatus) :
    Layout o [] (s.setStatus t status) runq hp :=
  ⟨layout.linked.setStatus t status, layout.once, layout.known, layout.off, layout.flag,
    layout.wakeups, layout.wakeupFlag, layout.nonDet, layout.nonDetOff, layout.clean⟩

@[simp] theorem setStatus_self (t : Tid) (status : ThdStatus) :
    ((s.setStatus t status).elems t).status = status := by
  simp [Sched.setStatus, MinSmt.setStatus]

@[simp] theorem setStatus_of_ne {t : Tid} (other : t ≠ tid) (status : ThdStatus) :
    (s.setStatus tid status).elems t = s.elems t := by
  simp [Sched.setStatus, MinSmt.setStatus, other]

theorem moved_setStatus (tid : Tid) (status : ThdStatus) : Moved tid s (s.setStatus tid status) :=
  ⟨fun _ _ => Iff.rfl, fun _ other => by rw [setStatus_of_ne other], fun _ _ h => h,
    fun _ _ _ => rfl, fun _ => rfl, fun _ h => h, fun _ h => h, fun _ _ => Or.inl,
    fun _ _ inside _ => Or.inl inside⟩

/-- Clearing the own flag is a move of the own thread. -/
theorem moved_of_popped {elems : Elems} {q h : RunQueue}
    (status : ∀ t, t ≠ tid → (elems t).status = (s.elems t).status) :
    Moved tid s { s with elems := elems, runq := q, hpRunq := h, waits := clearFlag s.waits tid } :=
  ⟨fun _ _ => Iff.rfl, status, fun _ _ h => h, fun t other _ => clearFlag_of_ne s.waits other,
    fun t => (clearFlag_fields s.waits tid t).2.2.1,
    fun t posted => by rwa [← (clearFlag_fields s.waits tid t).2.2.2], fun _ h => h,
    fun _ _ => Or.inl, fun _ _ inside _ => Or.inl inside⟩

/-- **"Process run queue structure" keeps every thread in its place or moves the caller to `runq`.**
-/
theorem Layout.requeue (layout : Layout o [] s runq hp) (front : AtFront s runq hp tid)
    (strategy : Strategy) :
    ∃ s' runq' hp', s.requeue tid strategy = some s' ∧ Layout o [] s' runq' hp' ∧ Moved tid s s' ∧
      (∀ t, (s'.elems t).status = (s.elems t).status) ∧ s'.waitq = s.waitq ∧ s'.tm = s.tm ∧
      (strategy.keeps = true → AtFront s' runq' hp' tid) ∧
      (strategy = .default → ∃ rest, runq' = rest ++ [tid]) := by
  obtain ⟨elems, q, h, runq', hp', popped, left⟩ :=
    popOwn_spec layout.linked layout.off layout.flag front
  have member : tid ∉ runq' ∧ tid ∉ hp' := by
    have counts := left.counts tid
    have once := layout.once tid
    rw [if_pos rfl] at counts
    exact ⟨List.count_eq_zero.mp (by split at once <;> omega),
      List.count_eq_zero.mp (by split at once <;> omega)⟩
  have moved : Moved tid s { s with
      elems := elems, runq := q, hpRunq := h, waits := clearFlag s.waits tid } :=
    moved_of_popped fun t _ => left.status t
  have clean : ∀ t, t ∉ s.waitq → (clearFlag s.waits tid t).chan = none ∧
      (clearFlag s.waits tid t).timeout = forever := by
    intro t outside
    rw [(clearFlag_fields s.waits tid t).1, (clearFlag_fields s.waits tid t).2.1]
    exact layout.clean t outside
  -- the three ways to queue the popped element again differ in the order of `runq` only
  have back : ∀ elems' q' longer, Linked elems' q' h longer hp' →
      (∀ t, longer.count t = (tid :: runq').count t) →
      Layout o [] { s with
        elems := elems', runq := q', hpRunq := h, waits := clearFlag s.waits tid } longer hp' := by
    intro elems' q' longer linked same
    refine ⟨linked, fun t => ?_, layout.known, left.off, left.flag, layout.wakeups,
      layout.wakeupFlag, layout.nonDet, layout.nonDetOff, clean⟩
    have once := layout.once t
    have counts := left.counts t
    show longer.count t + hp'.count t + s.waitq.count t + s.removed.count t = _
    rw [same t, ← count_tail]
    show _ = if s.Live t then 1 else 0
    omega
  have pushed := back _ _ _ (left.linked.pushBack member.1 member.2) fun t => by
    rw [List.count_append, List.count_singleton, List.count_cons]
  cases strategy with
  | currentThread =>
    exact ⟨s, runq, hp, rfl, layout, (Quiet.refl s).moved tid, fun _ => rfl, rfl, rfl,
      fun _ => front, nofun⟩
  | create =>
    exact ⟨s, runq, hp, rfl, layout, (Quiet.refl s).moved tid, fun _ => rfl, rfl, rfl,
      fun _ => front, nofun⟩
  | yield =>
    obtain ⟨elems', q', longer, inserted, linked, perm, _, status⟩ :=
      left.linked.insertYield member.1 member.2
    refine ⟨_, longer, hp', ?_, back elems' q' longer linked fun t => perm.count_eq t,
      moved_of_popped fun t _ => (status t).trans (left.status t),
      fun t => (status t).trans (left.status t), rfl, rfl, (fun keeps => by cases keeps), nofun⟩
    rw [Sched.requeue, popped, Option.bind_some, Sched.insertYield, inserted]
    rfl
  | default =>
    refine ⟨_, runq' ++ [tid], hp', by rw [Sched.requeue, popped]; rfl, pushed,
      moved_of_popped fun t _ => (RunQueue.pushBack_status _ _ _ _).trans (left.status t),
      fun t => (RunQueue.pushBack_status _ _ _ _).trans (left.status t), rfl, rfl,
      (fun keeps => by cases keeps), fun _ => ⟨runq', rfl⟩⟩
  | currentRole =>
    refine ⟨_, runq' ++ [tid], hp', by rw [Sched.requeue, popped]; rfl, pushed,
      moved_of_popped fun t _ => (RunQueue.pushBack_status _ _ _ _).trans (left.status t),
      fun t => (RunQueue.pushBack_status _ _ _ _).trans (left.status t), rfl, rfl,
      (fun keeps => by cases keeps), nofun⟩

theorem enterNonDet_wakeups :
    (s.enterNonDet o tid).interProWakeupTids = s.interProWakeupTids := by
  unfold Sched.enterNonDet
  split <;> rfl

/-- Entering `non_det_thds` before being removed. -/
theorem Layout.enterNonDet (layout : Layout o [] s runq hp) (tid : Tid) :
    Layout o [tid] (s.enterNonDet o tid) runq hp ∧ Quiet s (s.enterNonDet o tid) := by
  unfold Sched.enterNonDet
  cases bound : o.enforceNonDetClockBound with
  | false =>
    refine ⟨⟨layout.linked, layout.once, layout.known, layout.off, layout.flag, layout.wakeups,
      layout.wakeupFlag, fun t => ?_, layout.nonDetOff, layout.clean⟩, Quiet.refl s⟩
    exact Nat.le_add_right_of_le (layout.nonDet t)
  | true =>
    refine ⟨⟨layout.linked, layout.once, layout.known, layout.off, layout.flag, layout.wakeups,
      layout.wakeupFlag, fun t => ?_, fun no => absurd no (by simp [bound]), layout.clean⟩,
      ⟨rfl, fun _ => rfl, fun _ h => h, fun _ _ => rfl, fun _ => rfl, fun _ => rfl, fun _ h => h,
        fun _ h => h, fun _ => Or.inl, fun _ inside _ => Or.inl inside⟩⟩
    show (s.nonDetThds.tids ++ [tid]).count t ≤ _
    rw [List.count_append]
    exact Nat.add_le_add_right (layout.nonDet t) _

section Giving

variable (rr : 0 ≤ o.enforceTurnType)

include rr

/-- **`putTurn`, up to `next`.** -/
theorem Layout.putTurn (layout : Layout o [] s runq hp) (front : AtFront s runq hp tid)
    (strategy : Strategy) :
    ∃ s' runq' hp', s.putTurn o tid strategy = some s' ∧ Layout o [] s' runq' hp' ∧ Moved tid s s' ∧
      (s'.elems tid).status = .runnable ∧ (∀ t ∈ s'.waitq, t ∈ s.waitq) ∧ s'.tm = s.tm ∧
      (strategy.keeps = true → s'.front tid = some tid) ∧ (strategy = .default → tid ∈ runq') := by
  obtain ⟨s₁, runq₁, hp₁, requeued, layout₁, moved₁, status₁, waitq₁, tm₁, kept, last⟩ :=
    (layout.setStatus tid .runnable).requeue front strategy
  obtain ⟨⟨more, layout₂⟩, quiet⟩ := layout₁.checkNonDetBound rr
  refine ⟨_, runq₁ ++ more, hp₁, ?_, layout₂, ?_, ?_, fun t inside => ?_, quiet.tm.trans tm₁,
    fun keeps => layout₂.atFront_iff.mp ?_, fun isDefault => ?_⟩
  · rw [Sched.putTurn, if_pos rr, requeued]
    rfl
  · exact ((moved_setStatus tid .runnable).trans moved₁).trans (quiet.moved tid)
  · rw [quiet.status tid, status₁ tid, setStatus_self]
  · have before := quiet.waiting t inside
    rwa [waitq₁] at before
  · exact (kept keeps).mono (List.prefix_append _ _) (List.prefix_refl _) (quiet.flag tid)
  · obtain ⟨rest, rfl⟩ := last isDefault
    simp

/-- The status `next` leaves a thread with that it takes off its queue. -/
theorem nextPop_spec (linked : Linked s.elems s.runq s.hpRunq runq hp)
    (off : o.highPriority = false → hp = [])
    (flag : ∀ t, (s.waits t).wokenUpFromHpQueueFlag = true → hp.head? = some t)
    (front : AtFront s runq hp tid) :
    ∃ elems q h runq' hp',
      s.nextPop o tid = some { s with
        elems := elems, runq := q, hpRunq := h, waits := clearFlag s.waits tid } ∧
      Linked elems q h runq' hp' ∧
      (∀ t, runq'.count t + hp'.count t + (if t = tid then 1 else 0) =
        runq.count t + hp.count t) ∧
      (o.highPriority = false → hp' = []) ∧
      (∀ t, (clearFlag s.waits tid t).wokenUpFromHpQueueFlag = true → hp'.head? = some t) ∧
      (∀ t, t ≠ tid → (elems t).status = (s.elems t).status) ∧
      (elems tid).status =
        if (s.elems tid).status = .runningReg then .runnable else .interProStop := by
  obtain ⟨elems, q, h, runq', hp', popped, left⟩ := @popOwn_spec o (s.setStatus tid
      (if (s.elems tid).status = .runningReg then .runnable else .interProStop)) runq hp tid
    (linked.setStatus _ _) off flag front
  refine ⟨elems, q, h, runq', hp', ?_, left.linked, left.counts, left.off, left.flag,
    fun t other => ?_, ?_⟩
  · rw [nextPop, if_pos rr]
    exact popped
  · rw [left.status t, setStatus_of_ne other]
  · rw [left.status tid, setStatus_self]

/-- **Entering the wait queue**: the end of `wait` and of `idleThreadCondWait`. -/
theorem Layout.enqueue (layout : Layout o [] s runq hp) (front : AtFront s runq hp tid)
    (settled : tid ∉ s.interProWakeupTids) (chan : Option Chan) (timeout : Nat) :
    ∃ s' runq' hp', ({ s with toCore := s.toCore.enqueue tid chan timeout } : Sched).nextPop o tid =
        some s' ∧ Layout o [] s' runq' hp' ∧ Moved tid s s' ∧ s'.Live tid ∧
      s'.waitq = s.waitq ++ [tid] ∧
      ((s'.waits tid).chan = chan ∧ (s'.waits tid).timeout = timeout) ∧
      (s'.elems tid).status =
        if (s.elems tid).status = .runningReg then .runnable else .interProStop := by
  have outside : tid ∉ s.waitq := by
    rcases front.member with inside | inside
    · exact (layout.runq_live inside).2.1
    · exact (layout.hp_live inside).2.1
  have live : s.Live tid := by
    rcases front.member with inside | inside
    · exact (layout.runq_live inside).1
    · exact (layout.hp_live inside).1
  set waits := Function.update s.waits tid
    { s.waits tid with chan := chan, timeout := timeout } with isWaits
  have sameFlag : ∀ t, (waits t).wokenUpFromHpQueueFlag = (s.waits t).wokenUpFromHpQueueFlag ∧
      (waits t).sem = (s.waits t).sem ∧ (waits t).wakenUp = (s.waits t).wakenUp := by
    intro t
    by_cases same : t = tid
    · subst same
      simp [isWaits]
    · rw [isWaits, Function.update_of_ne same]
      exact ⟨rfl, rfl, rfl⟩
  have fields := fun t => clearFlag_fields waits tid t
  obtain ⟨elems, q, h, runq', hp', popped, linked, counts, off, flag, status, own⟩ :=
    @nextPop_spec o { s with toCore := s.toCore.enqueue tid chan timeout } runq hp tid rr
      layout.linked layout.off
      (fun t set => layout.flag t ((sameFlag t).1 ▸ set))
      (front.mono (List.prefix_refl _) (List.prefix_refl _) (sameFlag tid).1)
  refine ⟨_, runq', hp', popped, ⟨linked, fun t => ?_, layout.known, off, flag, fun t inside => ?_,
    layout.wakeupFlag, layout.nonDet, layout.nonDetOff, fun t stays => ?_⟩, ?_, live, rfl, ?_, own⟩
  · have once := layout.once t
    have count := counts t
    show runq'.count t + hp'.count t + (s.waitq ++ [tid]).count t + s.removed.count t =
      if s.Live t then 1 else 0
    have single : [tid].count t = if t = tid then 1 else 0 := by
      rw [← count_tail, List.count_nil, Nat.zero_add]
    rw [List.count_append, single]
    omega
  · refine ⟨(layout.wakeups t inside).1, fun waiting => ?_⟩
    rcases List.mem_append.mp waiting with before | isTid
    · exact (layout.wakeups t inside).2 before
    · exact settled (List.mem_singleton.mp isTid ▸ inside)
  · have notTid : t ≠ tid := fun same => stays (List.mem_append.mpr (Or.inr (by simp [same])))
    have before : t ∉ s.waitq := fun inside => stays (List.mem_append.mpr (Or.inl inside))
    show (clearFlag waits tid t).chan = none ∧ (clearFlag waits tid t).timeout = forever
    rw [clearFlag_of_ne waits notTid, isWaits, Function.update_of_ne notTid]
    exact layout.clean t before
  · refine ⟨fun _ _ => Iff.rfl, status, fun t other inside => ?_, fun t other _ => ?_, fun t => ?_,
      fun t posted => ?_, fun _ h => h, fun _ _ => Or.inl, fun _ _ inside _ => Or.inl inside⟩
    · rcases List.mem_append.mp inside with before | isTid
      · exact before
      · exact absurd (List.mem_singleton.mp isTid) other
    · show clearFlag waits tid t = s.waits t
      rw [clearFlag_of_ne waits other, isWaits, Function.update_of_ne other]
    · exact (fields t).2.2.1.trans (sameFlag t).2.1
    · have posted' : (clearFlag waits tid t).wakenUp = true := posted
      rwa [(fields t).2.2.2, (sameFlag t).2.2] at posted'
  · show (clearFlag waits tid tid).chan = chan ∧ (clearFlag waits tid tid).timeout = timeout
    rw [(fields tid).1, (fields tid).2.1, isWaits, Function.update_self]
    exact ⟨rfl, rfl⟩

theorem enterWaitq_eq (chan : Option Chan) (timeout : Nat)
    (order : List Tid) : s.enterWaitq o tid chan timeout order =
      { s.incTurnCount o order with
        toCore := (s.incTurnCount o order).toCore.enqueue tid chan timeout } := by
  unfold Sched.enterWaitq
  simp only [if_neg (Int.not_lt.mpr rr)]

/-- **`wait`, up to the `check_wakeup` of `next`.** -/
theorem Layout.wait (layout : Layout o [] s runq hp) (front : AtFront s runq hp tid)
    (noLone : (s.tickAndFire o).NoLone) {order : List Tid}
    (perm : order.Perm s.interProWakeupTids) (chan : Option Chan) (timeout : Nat) :
    ∃ s' runq' hp', s.wait o tid chan timeout order = some s' ∧ Layout o [] s' runq' hp' ∧
      Moved tid s s' ∧ s'.Live tid ∧ s'.interProWakeupTids = [] ∧
      s'.waitq = (s.incTurnCount o order).waitq ++ [tid] ∧
      ((s'.waits tid).chan = chan ∧ (s'.waits tid).timeout = timeout) ∧
      (s'.elems tid).status =
        if (s.elems tid).status = .runningReg then .runnable else .interProStop := by
  obtain ⟨⟨runq₁, hp₁, longer, longer', layout₁, quiet⟩, settled⟩ :=
    layout.incTurnCount rr noLone perm
  obtain ⟨s', runq', hp', popped, layout', moved, live, waitq, slot, status⟩ :=
    layout₁.enqueue rr (front.mono longer longer' (quiet.flag tid))
      (by rw [settled]; exact List.not_mem_nil) chan timeout
  refine ⟨s', runq', hp', ?_, layout', (quiet.moved tid).trans moved, live, ?_, waitq, slot, ?_⟩
  · rw [Sched.wait, enterWaitq_eq rr]
    exact popped
  · refine List.eq_nil_iff_forall_not_mem.mpr fun t inside => ?_
    have before := moved.wakeups t inside
    rw [settled] at before
    cases before
  · rw [status, quiet.status tid]

/-- **`idleThreadCondWait`, up to the `check_wakeup` of `next`.** -/
theorem Layout.idleEnqueue (layout : Layout o [] s runq hp) (front : AtFront s runq hp tid)
    (settled : tid ∉ s.interProWakeupTids) :
    ∃ s' runq' hp', s.idleEnqueue o tid = some s' ∧ Layout o [] s' runq' hp' ∧ Moved tid s s' ∧
      s'.Live tid ∧ s'.waitq = s.waitq ++ [tid] ∧
      ((s'.waits tid).chan = some .idleCond ∧ (s'.waits tid).timeout = forever) ∧
      (s'.elems tid).status =
        if (s.elems tid).status = .runningReg then .runnable else .interProStop :=
  layout.enqueue rr front settled (some .idleCond) forever

/-- **`block`, up to the `check_wakeup` of `next`.** -/
theorem Layout.block (layout : Layout o [] s runq hp) (front : AtFront s runq hp tid)
    (noLone : ((s.enterNonDet o tid).tickAndFire o).NoLone) {order : List Tid}
    (perm : order.Perm s.interProWakeupTids) :
    ∃ s' runq' hp', s.block o tid order = some s' ∧ Layout o [] s' runq' hp' ∧ Moved tid s s' ∧
      s'.Live tid ∧ tid ∉ s'.waitq ∧ (∀ t ∈ s'.waitq, t ∈ s.waitq) ∧
      s'.interProWakeupTids = [] ∧
      (s'.elems tid).status =
        if (s.elems tid).status = .runningReg then .runnable else .interProStop := by
  obtain ⟨layout₀, quiet₀⟩ := layout.enterNonDet tid
  rw [← @enterNonDet_wakeups o s tid] at perm
  obtain ⟨⟨runq₁, hp₁, longer, longer', layout₁, quiet₁⟩, settled⟩ :=
    layout₀.incTurnCount rr noLone perm
  have quiet := quiet₀.trans quiet₁
  have front₁ := front.mono longer longer' (quiet.flag tid)
  obtain ⟨live, outside⟩ : ((s.enterNonDet o tid).incTurnCount o order).Live tid ∧
      tid ∉ ((s.enterNonDet o tid).incTurnCount o order).waitq := by
    rcases front₁.member with inside | inside
    · exact ⟨(layout₁.runq_live inside).1, (layout₁.runq_live inside).2.1⟩
    · exact ⟨(layout₁.hp_live inside).1, (layout₁.hp_live inside).2.1⟩
  set s₁ := (s.enterNonDet o tid).incTurnCount o order with isS₁
  obtain ⟨elems, q, h, runq', hp', popped, linked, counts, off, flag, status, own⟩ :=
    nextPop_spec rr layout₁.linked layout₁.off layout₁.flag front₁
  have result : s.block o tid order = some { s₁ with
      elems := elems, runq := q, hpRunq := h, waits := clearFlag s₁.waits tid,
      removed := s₁.removed ++ [tid] } := by
    rw [Sched.block, ← isS₁, popped]
    exact congrArg some (if_pos rr)
  refine ⟨_, runq', hp', result, ⟨linked, fun t => ?_, layout₁.known, off, flag,
      layout₁.wakeups, layout₁.wakeupFlag, fun t => ?_, layout₁.nonDetOff, fun t stays => ?_⟩,
    (quiet.moved tid).trans ?_, live, outside, fun t inside => quiet.waiting t inside, settled, ?_⟩
  · have once := layout₁.once t
    have count := counts t
    show runq'.count t + hp'.count t + s₁.waitq.count t + (s₁.removed ++ [tid]).count t =
      if s₁.Live t then 1 else 0
    have single : [tid].count t = if t = tid then 1 else 0 := by
      rw [← count_tail, List.count_nil, Nat.zero_add]
    rw [List.count_append, single]
    omega
  · have few := layout₁.nonDet t
    show s₁.nonDetThds.tids.count t ≤ (s₁.removed ++ [tid]).count t + 0
    rw [List.count_append]
    exact few
  · show (clearFlag s₁.waits tid t).chan = none ∧ (clearFlag s₁.waits tid t).timeout = forever
    rw [(clearFlag_fields s₁.waits tid t).1, (clearFlag_fields s₁.waits tid t).2.1]
    exact layout₁.clean t stays
  · have moved := @moved_of_popped s₁ tid elems q h status
    refine ⟨moved.live, moved.status, moved.waiting, moved.slot, moved.sem, moved.wakenUp,
      moved.wakeups, fun t other inside => Or.inl ?_, fun _ _ inside _ => Or.inl inside⟩
    exact (List.mem_append.mp inside).resolve_right (by simp [other])
  · rw [← quiet.status tid]
    exact own

omit rr in
/-- `checkNonDetBound` does not read the thread maps. -/
theorem checkNonDetBound_tm (m : TidMap) :
    ({ s with tm := m } : Sched).checkNonDetBound o = { s.checkNonDetBound o with tm := m } := by
  unfold Sched.checkNonDetBound
  cases o.enforceNonDetClockBound with
  | false => rfl
  | true =>
    cases s.nonDetThds.tids with
    | nil => rfl
    | cons first rest =>
      by_cases late : (s.nonDetThds.clock first + o.nonDetClockBound) % unsignedMod < s.turnCount
      · by_cases rr : 0 ≤ o.enforceTurnType
        · simp only [if_pos late, if_pos rr]
          rfl
        · simp only [if_pos late, if_neg rr]
          rfl
      · simp only [if_neg late]
        rfl

/-- The threads that wait for this one to end become runnable. -/
theorem Layout.signalJoiner (layout : Layout o [] s runq hp) (tid : Tid) :
    Grown o [] s (s.signalJoiner o tid) runq hp := by
  unfold Sched.signalJoiner
  cases s.tm.tToP tid with
  | some th => exact layout.signal rr _ _
  | none => exact ⟨runq, hp, List.prefix_refl _, List.prefix_refl _, layout, Quiet.refl s⟩

/-- **`putTurn` at a thread's end, up to the `check_wakeup` of `next`.** -/
theorem Layout.putTurnAtEnd (layout : Layout o [] s runq hp) (front : AtFront s runq hp tid)
    (settled : tid ∉ s.interProWakeupTids) :
    ∃ s' runq' hp', s.putTurnAtEnd o tid = some s' ∧ Layout o [] s' runq' hp' ∧ Moved tid s s' ∧
      ¬ s'.Live tid ∧ (∀ t ∈ s'.waitq, t ∈ s.waitq) ∧ (s'.elems tid).status =
        if (s.elems tid).status = .runningReg then .runnable else .interProStop := by
  obtain ⟨runq₁, hp₁, longer, longer', layout₁, quiet₁⟩ := layout.signalJoiner rr tid
  unfold Sched.putTurnAtEnd Sched.finish
  set s₁ := s.signalJoiner o tid with isS₁
  obtain ⟨⟨more, layout₂⟩, quiet₂⟩ := layout₁.checkNonDetBound rr
  have quiet := quiet₁.trans quiet₂
  have front₂ := front.mono (longer.trans (List.prefix_append _ more)) longer' (quiet.flag tid)
  obtain ⟨elems, q, h, runq', hp', popped, linked, counts, off, flag, status, own⟩ :=
    @nextPop_spec o { s₁.checkNonDetBound o with tm := s₁.tm.zombify tid } _ _ tid rr
      layout₂.linked layout₂.off layout₂.flag front₂
  have dead : (s₁.tm.zombify tid).tToP = Function.update s₁.tm.tToP tid none :=
    s₁.tm.zombify_tToP tid
  have sameLive : ∀ t, t ≠ tid → (((s₁.tm.zombify tid).tToP t).isSome = true ↔
      (s₁.checkNonDetBound o).Live t) := by
    intro t other
    rw [dead, Function.update_of_ne other, quiet₂.live t]
    exact Iff.rfl
  have notLive : ¬ ((s₁.tm.zombify tid).tToP tid).isSome = true := by
    rw [dead, Function.update_self]
    exact Bool.false_ne_true
  have mine : (s₁.checkNonDetBound o).Live tid ∧ tid ∉ (s₁.checkNonDetBound o).interProWakeupTids := by
    refine ⟨?_, fun inside => settled (quiet.wakeups tid inside)⟩
    rcases front₂.member with inside | inside
    · exact (layout₂.runq_live inside).1
    · exact (layout₂.hp_live inside).1
  have result : (({ s₁ with tm := s₁.tm.zombify tid } : Sched).checkNonDetBound o).nextPop o tid =
      some { s₁.checkNonDetBound o with
        tm := s₁.tm.zombify tid, elems := elems, runq := q, hpRunq := h,
        waits := clearFlag (s₁.checkNonDetBound o).waits tid } := by
    rw [checkNonDetBound_tm]
    exact popped
  refine ⟨_, runq', hp', result,
    ⟨linked, fun t => ?_, fun t live => ?_, off, flag, fun t inside => ?_, layout₂.wakeupFlag,
      layout₂.nonDet, layout₂.nonDetOff, fun t stays => ?_⟩, ?_, notLive,
    fun t inside => quiet.waiting t inside, ?_⟩
  · have once := layout₂.once t
    have count := counts t
    show runq'.count t + hp'.count t + (s₁.checkNonDetBound o).waitq.count t +
      (s₁.checkNonDetBound o).removed.count t =
        if ((s₁.tm.zombify tid).tToP t).isSome = true then 1 else 0
    by_cases same : t = tid
    · subst same
      rw [if_pos mine.1] at once
      rw [if_pos rfl] at count
      rw [if_neg notLive]
      omega
    · rw [if_neg same] at count
      by_cases live : (s₁.checkNonDetBound o).Live t
      · rw [if_pos live] at once
        rw [if_pos ((sameLive t same).mpr live)]
        omega
      · rw [if_neg live] at once
        rw [if_neg fun alive => live ((sameLive t same).mp alive)]
        omega
  · have other : t ≠ tid := fun same => notLive (same ▸ live)
    show t < (s₁.tm.zombify tid).nthread
    rw [TidMap.zombify_nthread, ← quiet₂.tm]
    exact layout₂.known t ((sameLive t other).mp live)
  · have other : t ≠ tid := fun same => mine.2 (same ▸ inside)
    exact ⟨(sameLive t other).mpr (layout₂.wakeups t inside).1, (layout₂.wakeups t inside).2⟩
  · show (clearFlag (s₁.checkNonDetBound o).waits tid t).chan = none ∧
      (clearFlag (s₁.checkNonDetBound o).waits tid t).timeout = forever
    rw [(clearFlag_fields _ tid t).1, (clearFlag_fields _ tid t).2.1]
    exact layout₂.clean t stays
  · refine (quiet.moved tid).trans ?_
    have moved := @moved_of_popped (s₁.checkNonDetBound o) tid elems q h status
    exact ⟨sameLive, moved.status, moved.waiting, moved.slot, moved.sem, moved.wakenUp,
      moved.wakeups, moved.removed, moved.back⟩
  · rw [← quiet.status tid]
    exact own

/-- **`create` appends a new thread**, to `hp_runq` when that queue is in use. -/
theorem Layout.create (layout : Layout o [] s runq hp) (th : PthreadT) (threadFunc : ThreadFunc) :
    ∃ more more', Layout o [] (s.create o th threadFunc) (runq ++ more) (hp ++ more') ∧
      Moved s.tm.nthread s (s.create o th threadFunc) ∧
      (s.create o th threadFunc).Live s.tm.nthread ∧ s.tm.nthread ∉ s.waitq ∧
      ((s.create o th threadFunc).elems s.tm.nthread).status = .runnable ∧
      (s.create o th threadFunc).waitq = s.waitq ∧
      (s.create o th threadFunc).waits = s.waits := by
  set tid := s.tm.nthread with isTid
  have notLive : ¬ s.Live tid := fun live => Nat.lt_irrefl _ (layout.known tid live)
  have once := layout.once tid
  rw [if_neg notLive] at once
  have notRunq : tid ∉ runq := List.count_eq_zero.mp (by omega)
  have notHp : tid ∉ hp := List.count_eq_zero.mp (by omega)
  have notWaiting : tid ∉ s.waitq := List.count_eq_zero.mp (by omega)
  obtain ⟨noPrev, noNext⟩ := layout.linked.unlinked tid notRunq notHp
  have linked : Linked (Function.update s.elems tid {}) s.runq s.hpRunq runq hp := by
    refine layout.linked.congr fun t => ?_
    by_cases same : t = tid
    · subst same
      rw [Function.update_self, noPrev, noNext]
      exact ⟨rfl, rfl⟩
    · rw [Function.update_of_ne same]
      exact ⟨rfl, rfl⟩
  have created : ∀ t, ((s.tm.create o.wakeamapPlus th threadFunc).tToP t).isSome = true ↔
      t = tid ∨ s.Live t := by
    intro t
    rw [TidMap.create_tToP]
    by_cases same : t = tid
    · subst same
      simp [isTid]
    · rw [Function.update_of_ne same]
      exact ⟨Or.inr, fun either => either.resolve_left same⟩
  have counts : ∀ t, runq.count t + hp.count t + s.waitq.count t + s.removed.count t +
      (if t = tid then 1 else 0) =
        if ((s.tm.create o.wakeamapPlus th threadFunc).tToP t).isSome = true then 1 else 0 := by
    intro t
    have before := layout.once t
    by_cases same : t = tid
    · rw [same, if_pos rfl, if_pos ((created tid).mpr (Or.inl rfl))]
      omega
    · rw [if_neg same]
      by_cases live : s.Live t
      · rw [if_pos live] at before
        rw [if_pos ((created t).mpr (Or.inr live))]
        omega
      · rw [if_neg live] at before
        rw [if_neg fun alive => ((created t).mp alive).elim same live]
        omega
  have known : ∀ t, ((s.tm.create o.wakeamapPlus th threadFunc).tToP t).isSome = true →
      t < tid + 1 := by
    intro t alive
    rcases (created t).mp alive with same | live
    · rw [same]
      exact Nat.lt_succ_self tid
    · exact Nat.lt_succ_of_lt (layout.known t live)
  have wakeups : ∀ t ∈ s.interProWakeupTids,
      ((s.tm.create o.wakeamapPlus th threadFunc).tToP t).isSome = true ∧ t ∉ s.waitq :=
    fun t inside => ⟨(created t).mpr (Or.inr (layout.wakeups t inside).1),
      (layout.wakeups t inside).2⟩
  have single : ∀ t, [tid].count t = if t = tid then 1 else 0 := fun t => by
    rw [← count_tail, List.count_nil, Nat.zero_add]
  have others : ∀ t, t ≠ tid →
      (Function.update s.elems tid {} t).status = (s.elems t).status := fun t other => by
    rw [Function.update_of_ne other]
  have own : (Function.update s.elems tid {} tid).status = .runnable := by
    rw [Function.update_self]
  unfold Sched.create
  simp only [if_pos rr]
  cases high : o.highPriority with
  | true =>
    refine ⟨[], [tid], ?_, ?_, (created tid).mpr (Or.inl rfl), notWaiting, ?_, rfl, rfl⟩
    · rw [List.append_nil]
      refine ⟨(linked.symm.pushBack notHp notRunq).symm, fun t => ?_, known,
        fun no => absurd no (by simp [high]), fun t set => ?_, wakeups, layout.wakeupFlag,
        layout.nonDet, layout.nonDetOff, layout.clean⟩
      · refine Eq.trans ?_ (counts t)
        show runq.count t + (hp ++ [tid]).count t + s.waitq.count t + s.removed.count t = _
        rw [List.count_append, single t]
        omega
      · exact head_of_prefix (List.prefix_append _ _) (layout.flag t set)
    · refine ⟨fun t other => (created t).trans (by simp [other]), fun t other => ?_, fun _ _ h => h,
        fun _ _ _ => rfl, fun _ => rfl, fun _ h => h, fun _ h => h, fun _ _ => Or.inl,
    fun _ _ inside _ => Or.inl inside⟩
      exact (RunQueue.pushBack_status _ _ _ _).trans (others t other)
    · exact (RunQueue.pushBack_status _ _ _ _).trans own
  | false =>
    refine ⟨[tid], [], ?_, ?_, (created tid).mpr (Or.inl rfl), notWaiting, ?_, rfl, rfl⟩
    · rw [List.append_nil]
      refine ⟨linked.pushBack notRunq notHp, fun t => ?_, known, layout.off, layout.flag, wakeups,
        layout.wakeupFlag, layout.nonDet, layout.nonDetOff, layout.clean⟩
      refine Eq.trans ?_ (counts t)
      show (runq ++ [tid]).count t + hp.count t + s.waitq.count t + s.removed.count t = _
      rw [List.count_append, single t]
      omega
    · refine ⟨fun t other => (created t).trans (by simp [other]), fun t other => ?_, fun _ _ h => h,
        fun _ _ _ => rfl, fun _ => rfl, fun _ h => h, fun _ h => h, fun _ _ => Or.inl,
    fun _ _ inside _ => Or.inl inside⟩
      exact (RunQueue.pushBack_status _ _ _ _).trans (others t other)
    · exact (RunQueue.pushBack_status _ _ _ _).trans own

/-- **`wakeUpIdleThread` only appends to `runq`.** -/
theorem Layout.wakeUpIdleThread (layout : Layout o [] s runq hp) :
    Grown o [] s (s.wakeUpIdleThread o) runq hp := by
  -- only the idle thread is taken, and it never goes to `hp_runq`
  have same : s.wakeUpIdleThread o = s.toCore.wakeIdle.2.foldl (makeRunnable o)
      { s with toCore := s.toCore.wakeIdle.1 } := by
    refine List.foldl_ext _ _ _ fun s' t woken => ?_
    have isIdle : (t == idleThreadTid) = true := scan_woken_hit layout.waitq_nodup woken
    rw [if_pos rr, makeRunnable, if_pos rr, if_neg fun high => high.2 (beq_iff_eq.mp isIdle)]
  rw [same]
  exact layout.pass rr _ _ _ fun _ => ⟨rfl, rfl, rfl, rfl, rfl⟩

end Giving

/-! ### One round of `nextRunnable` -/

/-- What a round of the loop of `nextRunnable` does, by how it ends. -/
def Picked (o : Options) (s : Sched) (strategy : Strategy) : Pick → Prop
  | .again s' strategy' => (∃ runq hp, Layout o [] s' runq hp) ∧ Quiet s s' ∧
      (strategy'.keeps = true → strategy = strategy' ∧ ∀ t, (s.elems t).status ≠ .interProStop →
        s.front t = some t → s'.front t = some t)
  | .grant s' t => (∃ runq hp, Layout o [] s' runq hp ∧ AtFront s' runq hp t) ∧ Moved t s s' ∧
      (∀ u ∈ s'.waitq, u ∈ s.waitq) ∧ s'.tm = s.tm ∧ (s.elems t).status ≠ .interProStop ∧
      (s'.elems t).status =
        (if (s.elems t).status = .runnable then .runningReg else (s.elems t).status) ∧
      ∀ u, s.front u = some u → s'.front u = some u
  | _ => True

/-- A front stays one when the queues grow. -/
theorem Grown.front (grown : Grown o late s s' runq hp) (layout : Layout o late s runq hp) {t : Tid}
    (before : s.front t = some t) : s'.front t = some t := by
  obtain ⟨runq', hp', longer, longer', layout', quiet⟩ := grown
  exact layout'.atFront_iff.mp
    ((layout.atFront_iff.mpr before).mono longer longer' (quiet.flag t))

/-- A round that first appends to the run queues. -/
theorem Picked.of_grown {pick : Pick} {strategy strategy' : Strategy}
    (layout : Layout o [] s runq hp) (grown : Grown o [] s s' runq hp)
    (picked : Picked o s' strategy' pick)
    (keeps : strategy'.keeps = true → strategy = strategy') : Picked o s strategy pick := by
  have front : ∀ t, s.front t = some t → s'.front t = some t := fun _ => grown.front layout
  obtain ⟨_, _, _, _, _, quiet⟩ := grown
  cases pick with
  | again _ _ =>
    refine ⟨picked.1, quiet.trans picked.2.1, fun kept => ?_⟩
    obtain ⟨same, stays⟩ := picked.2.2 kept
    refine ⟨(keeps (same ▸ kept)).trans same, fun t awake before => stays t ?_ (front t before)⟩
    rwa [quiet.status t]
  | grant s'' t =>
    obtain ⟨placed, moved, waiting, tm, awake, status, stays⟩ := picked
    refine ⟨placed, (quiet.moved t).trans moved, fun u inside => quiet.waiting u (waiting u inside),
      tm.trans quiet.tm, ?_, ?_, fun u before => stays u (front u before)⟩
    · rwa [← quiet.status t]
    · rwa [← quiet.status t]
  | _ => trivial

/-- A popped thread becomes a removed one. -/
theorem Layout.noteRemoved {elems : Elems} {q h : RunQueue} {runq' hp' : List Tid}
    (layout : Layout o [] s runq hp) (linked : Linked elems q h runq' hp')
    (counts : ∀ t, runq'.count t + hp'.count t + (if t = tid then 1 else 0) =
      runq.count t + hp.count t)
    (off : o.highPriority = false → hp' = [])
    (flag : ∀ t, (s.waits t).wokenUpFromHpQueueFlag = true → hp'.head? = some t) :
    Layout o [] (({ s with elems := elems, runq := q, hpRunq := h } : Sched).noteRemoved o tid)
      runq' hp' := by
  have single : ∀ t, [tid].count t = if t = tid then 1 else 0 := fun t => by
    rw [← count_tail, List.count_nil, Nat.zero_add]
  have once : ∀ t, runq'.count t + hp'.count t + s.waitq.count t +
      (s.removed ++ [tid]).count t = if s.Live t then 1 else 0 := by
    intro t
    have once := layout.once t
    have count := counts t
    rw [List.count_append, single t]
    omega
  unfold Sched.noteRemoved Sched.enterNonDet
  cases bound : o.enforceNonDetClockBound with
  | false =>
    refine ⟨linked, once, layout.known, off, flag, layout.wakeups, layout.wakeupFlag, fun t => ?_,
      layout.nonDetOff, layout.clean⟩
    have few := layout.nonDet t
    show s.nonDetThds.tids.count t ≤ (s.removed ++ [tid]).count t + 0
    rw [List.count_append]
    rw [List.count_nil] at few
    omega
  | true =>
    refine ⟨linked, once, layout.known, off, flag, layout.wakeups, layout.wakeupFlag, fun t => ?_,
      fun no => absurd no (by simp [bound]), layout.clean⟩
    have few := layout.nonDet t
    show (s.nonDetThds.tids ++ [tid]).count t ≤ (s.removed ++ [tid]).count t + 0
    rw [List.count_append, List.count_append]
    rw [List.count_nil] at few
    omega

theorem quiet_noteRemoved {elems : Elems} {q h : RunQueue}
    (stopped : (s.elems tid).status = .interProStop)
    (status : ∀ t, (elems t).status = (s.elems t).status) :
    Quiet s (({ s with elems := elems, runq := q, hpRunq := h } : Sched).noteRemoved o tid) := by
  have removed : ∀ t ∈ s.removed ++ [tid],
      t ∈ s.removed ∨ (s.elems t).status = .interProStop := fun t inside =>
    (List.mem_append.mp inside).imp_right fun isTid => by rwa [List.mem_singleton.mp isTid]
  unfold Sched.noteRemoved Sched.enterNonDet
  cases o.enforceNonDetClockBound <;>
    exact ⟨rfl, status, fun _ h => h, fun _ _ => rfl, fun _ => rfl, fun _ => rfl, fun _ h => h,
      fun _ h => h, removed, fun _ inside _ => Or.inl inside⟩

/-- Letting a head run changes its status only. -/
theorem Layout.grantHead (layout : Layout o [] s runq hp) (t : Tid) :
    Layout o [] (s.grantHead t) runq hp ∧ Moved t s (s.grantHead t) ∧
      (s.grantHead t).waitq = s.waitq ∧ (s.grantHead t).waits = s.waits ∧
      (s.grantHead t).tm = s.tm ∧ ((s.grantHead t).elems t).status =
        if (s.elems t).status = .runnable then .runningReg else (s.elems t).status := by
  unfold Sched.grantHead
  split
  · exact ⟨layout.setStatus t _, moved_setStatus t _, rfl, rfl, rfl, setStatus_self t _⟩
  · exact ⟨layout, (Quiet.refl s).moved t, rfl, rfl, rfl, rfl⟩

/-- The front of `runq` is not flagged. -/
theorem Layout.runq_unflagged (layout : Layout o [] s runq hp) (head : runq.head? = some tid) :
    (s.waits tid).wokenUpFromHpQueueFlag = false := by
  by_contra set
  have inHp := List.mem_of_head? (layout.flag tid (by simpa using set))
  exact (layout.hp_live inHp).2.2.2 (List.mem_of_head? head)

theorem picked_grant_runq (layout : Layout o [] s runq hp) (head : runq.head? = some tid)
    (awake : (s.elems tid).status ≠ .interProStop) (strategy : Strategy) :
    Picked o s strategy (.grant (s.grantHead tid) tid) := by
  obtain ⟨layout', moved, waitq, waits, tm, status⟩ := layout.grantHead tid
  refine ⟨⟨runq, hp, layout', ?_⟩, moved, fun u inside => waitq ▸ inside, tm, awake, status,
    fun u before => ?_⟩
  · rw [AtFront, waits, layout.runq_unflagged head]
    exact head
  · have place := layout.atFront_iff.mpr before
    refine layout'.atFront_iff.mp ?_
    unfold AtFront at place ⊢
    rwa [waits]

/-- A stopped head is taken off `runq`. -/
theorem Layout.drop_runq {rest : List Tid} (layout : Layout o [] s (tid :: rest) hp)
    (stopped : (s.elems tid).status = .interProStop) :
    ∃ elems q, s.popRunq = some { s with elems := elems, runq := q } ∧
      Layout o [] (({ s with elems := elems, runq := q } : Sched).noteRemoved o tid) rest hp ∧
      Quiet s (({ s with elems := elems, runq := q } : Sched).noteRemoved o tid) := by
  obtain ⟨elems, q, popped, linked, status⟩ := layout.linked.popFront
  refine ⟨elems, q, by rw [Sched.popRunq, popped]; rfl, ?_, quiet_noteRemoved stopped status⟩
  refine layout.noteRemoved linked (fun t => ?_) layout.off layout.flag
  rw [← count_tail]
  omega

theorem picked_drop_runq {rest : List Tid} (layout : Layout o [] s (tid :: rest) hp)
    (stopped : (s.elems tid).status = .interProStop) (strategy : Strategy) :
    ∃ s', s.popRunq = some s' ∧ Picked o s strategy (.again (s'.noteRemoved o tid) strategy) := by
  obtain ⟨elems, q, popped, layout', quiet⟩ := layout.drop_runq stopped
  refine ⟨_, popped, ⟨rest, hp, layout'⟩, quiet,
    fun _ => ⟨rfl, fun t awake before => layout'.atFront_iff.mp ?_⟩⟩
  have place := layout.atFront_iff.mpr before
  unfold AtFront at place ⊢
  rw [quiet.flag t]
  split at place
  · rename_i set
    rwa [if_pos set]
  · have same : tid = t := Option.some.inj place
    exact absurd (same ▸ stopped) awake

/-- **"Process one head element" of `runq`.** -/
theorem picked_pickRunq (layout : Layout o [] s runq hp) (strategy : Strategy) :
    Picked o s strategy (s.pickRunq o strategy) := by
  unfold Sched.pickRunq
  rw [layout.linked.queue.head_eq]
  cases runq with
  | nil => trivial
  | cons head rest =>
    show Picked o s strategy (if (s.elems head).status = .interProStop then _ else _)
    split
    · rename_i stopped
      obtain ⟨s', popped, picked⟩ := picked_drop_runq layout stopped strategy
      rw [popped]
      exact picked
    · rename_i awake
      exact picked_grant_runq layout rfl awake strategy

/-- **The branch for `PUTTURN_STRATEGY_CURRENT_ROLE`.** -/
theorem picked_pickRole (layout : Layout o [] s runq hp) (self : Tid) :
    Picked o s .currentRole (s.pickRole o self .currentRole) := by
  unfold Sched.pickRole
  rw [layout.linked.queue.head_eq]
  cases runq with
  | nil => cases s.tm.tToR self <;> trivial
  | cons head rest =>
    cases s.tm.tToR self with
    | none => trivial
    | some role =>
      show Picked o s .currentRole (if (s.elems head).status = .interProStop then _ else _)
      split
      · rename_i stopped
        obtain ⟨s', popped, picked⟩ := picked_drop_runq layout stopped .currentRole
        rw [popped]
        exact picked
      · rename_i awake
        cases s.tm.tToR head with
        | none => trivial
        | some headRole =>
          show Picked o s .currentRole (if role = headRole then _ else _)
          split
          · exact picked_grant_runq layout rfl awake .currentRole
          · -- another role: the head goes to the back
            obtain ⟨elems, q, popped, linked, status⟩ := layout.linked.popFront
            obtain ⟨_, notHp⟩ : head ∉ s.waitq ∧ head ∉ hp :=
              ⟨(layout.runq_live List.mem_cons_self).2.1,
                layout.linked.apart head List.mem_cons_self⟩
            have notRest : head ∉ rest :=
              (List.nodup_cons.mp layout.linked.queue.queue.nodup).1
            have popped' : s.popRunq = some { s with elems := elems, runq := q } := by
              rw [Sched.popRunq, popped]
              rfl
            rw [popped']
            refine ⟨⟨rest ++ [head], hp, linked.pushBack notRest notHp, fun t => ?_, layout.known,
              layout.off, layout.flag, layout.wakeups, layout.wakeupFlag, layout.nonDet,
              layout.nonDetOff, layout.clean⟩, ⟨rfl,
              fun t => (RunQueue.pushBack_status _ _ _ _).trans (status t), fun _ h => h,
              fun _ _ => rfl, fun _ => rfl, fun _ => rfl, fun _ h => h, fun _ h => h,
              fun _ => Or.inl, fun _ inside _ => Or.inl inside⟩, fun keeps => by cases keeps⟩
            have once := layout.once t
            rw [List.count_cons] at once
            refine Eq.trans ?_ once
            show (rest ++ [head]).count t + hp.count t + s.waitq.count t + s.removed.count t = _
            rw [List.count_append, List.count_singleton]

/-- The head that the first branch of `nextRunnable` pops does not carry its flag. -/
def NoStale (o : Options) (s : Sched) (self : Tid) (strategy : Strategy) : Prop :=
  FromHpRunq o s self strategy → ∀ head, s.hpRunq.head = some head →
    (s.elems head).status = .interProStop → (s.waits head).wokenUpFromHpQueueFlag = false

instance (o : Options) (s : Sched) (self : Tid) (strategy : Strategy) :
    Decidable (NoStale o s self strategy) :=
  inferInstanceAs (Decidable (FromHpRunq o s self strategy → ∀ head ∈ s.hpRunq.head,
    (s.elems head).status = .interProStop → (s.waits head).wokenUpFromHpQueueFlag = false))

/-- A stopped head without its flag is taken off `hp_runq`. -/
theorem Layout.drop_hp {rest : List Tid} (layout : Layout o [] s runq (tid :: rest))
    (stopped : (s.elems tid).status = .interProStop)
    (unflagged : (s.waits tid).wokenUpFromHpQueueFlag = false) :
    ∃ elems h, s.popHpRunq = some { s with elems := elems, hpRunq := h } ∧
      Layout o [] (({ s with elems := elems, hpRunq := h } : Sched).noteRemoved o tid) runq rest ∧
      Quiet s (({ s with elems := elems, hpRunq := h } : Sched).noteRemoved o tid) ∧
      ∀ t, (s.waits t).wokenUpFromHpQueueFlag = false := by
  obtain ⟨elems, h, popped, linked, status⟩ := layout.linked.symm.popFront
  have noFlag : ∀ t, (s.waits t).wokenUpFromHpQueueFlag = false := by
    intro t
    by_contra flagged
    have set : (s.waits t).wokenUpFromHpQueueFlag = true := by simpa using flagged
    have same : tid = t := Option.some.inj (layout.flag t set)
    rw [← same, unflagged] at set
    cases set
  refine ⟨elems, h, by rw [Sched.popHpRunq, popped]; rfl, ?_, quiet_noteRemoved stopped status, noFlag⟩
  refine layout.noteRemoved linked.symm (fun t => ?_)
    (fun no => absurd (layout.off no) (List.cons_ne_nil _ _)) fun t set => ?_
  · rw [Nat.add_assoc, count_tail]
  · rw [noFlag t] at set
    cases set

/-- **"Process one head element" of `hp_runq`.** -/
theorem picked_pickHp (layout : Layout o [] s runq hp) (strategy : Strategy)
    (fresh : ∀ head, s.hpRunq.head = some head → (s.elems head).status = .interProStop →
      (s.waits head).wokenUpFromHpQueueFlag = false) :
    Picked o s strategy (s.pickHp o strategy) := by
  unfold Sched.pickHp
  have isHead := layout.linked.second.head_eq
  rw [isHead]
  cases hp with
  | nil => trivial
  | cons head rest =>
    have unflagged := fresh head isHead
    show Picked o s strategy (if (s.elems head).status = .interProStop then _ else _)
    split
    · rename_i stopped
      obtain ⟨elems, h, popped, layout', quiet, noFlag⟩ := layout.drop_hp stopped (unflagged stopped)
      rw [popped]
      refine ⟨⟨runq, rest, layout'⟩, quiet,
        fun _ => ⟨rfl, fun t _ before => layout'.atFront_iff.mp ?_⟩⟩
      have place := layout.atFront_iff.mpr before
      unfold AtFront at place ⊢
      rw [noFlag t] at place
      rw [quiet.flag t, noFlag t]
      exact place
    · rename_i awake
      obtain ⟨layout', moved, waitq, waits, tm, status⟩ := layout.grantHead head
      have flags : ∀ t, (((s.grantHead head).setFlag head true).waits t).chan =
            (s.waits t).chan ∧
          (((s.grantHead head).setFlag head true).waits t).timeout = (s.waits t).timeout ∧
          (((s.grantHead head).setFlag head true).waits t).sem = (s.waits t).sem ∧
          (((s.grantHead head).setFlag head true).waits t).wakenUp = (s.waits t).wakenUp := by
        intro t
        rw [Sched.setFlag, waits]
        by_cases same : t = head
        · subst same
          simp
        · simp [Function.update_of_ne same]
      have others : ∀ t, t ≠ head →
          ((s.grantHead head).setFlag head true).waits t = s.waits t := by
        intro t other
        rw [Sched.setFlag, waits]
        exact Function.update_of_ne other _ _
      have atHead : AtFront ((s.grantHead head).setFlag head true) runq (head :: rest) head := by
        rw [AtFront, Sched.setFlag]
        simp
      have layout'' : Layout o [] ((s.grantHead head).setFlag head true) runq (head :: rest) := by
        refine ⟨layout'.linked, layout'.once, layout'.known, layout'.off, fun t set => ?_,
          layout'.wakeups, layout'.wakeupFlag, layout'.nonDet, layout'.nonDetOff,
          fun t outside => ?_⟩
        · by_cases same : t = head
          · rw [same]
            rfl
          · rw [others t same] at set
            exact layout.flag t set
        · rw [(flags t).1, (flags t).2.1]
          exact layout.clean t (waitq ▸ outside)
      refine ⟨⟨runq, head :: rest, layout'', atHead⟩, ⟨moved.live, moved.status, moved.waiting,
          fun t other _ => others t other, fun t => (flags t).2.2.1,
          fun t posted => (flags t).2.2.2 ▸ posted, moved.wakeups, moved.removed,
          moved.back⟩,
        fun u inside => waitq ▸ inside, tm, awake, status,
        fun u before => layout''.atFront_iff.mp ?_⟩
      by_cases same : u = head
      · rw [same]
        exact atHead
      · have place := layout.atFront_iff.mpr before
        unfold AtFront at place ⊢
        rwa [others u same]

/-- **One round of the loop of `nextRunnable`.** -/
theorem Layout.nextRunnable (layout : Layout o [] s runq hp) (rr : 0 ≤ o.enforceTurnType)
    (idleDone : Bool) (self : Tid) (atThreadEnd : Bool) (strategy : Strategy)
    (noStale : NoStale o s self strategy) :
    Picked o s strategy (s.nextRunnable o idleDone self atThreadEnd strategy) := by
  unfold Sched.nextRunnable
  split
  · rename_i fromHp
    exact picked_pickHp layout strategy (noStale fromHp)
  · split
    · rename_i byRole
      rw [byRole.1]
      exact picked_pickRole layout self
    · split
      · split
        · trivial
        · split
          · trivial
          · split
            · trivial
            · have grown := layout.wakeUpIdleThread rr
              have ⟨_, _, _, _, layout', _⟩ := grown
              exact (picked_pickRunq layout' _).of_grown layout grown fun keeps => by cases keeps
      · split
        · have grown := layout.signal rr .nonDetCV true
          have ⟨_, _, _, _, layout', _⟩ := grown
          exact (picked_pickRunq layout' _).of_grown layout grown fun _ => rfl
        · exact picked_pickRunq layout strategy

end Sched

end MinSmt
