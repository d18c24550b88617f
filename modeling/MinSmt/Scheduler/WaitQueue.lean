/-
**The mixed wait queue** (`waitq` and `waits[]` in `include/tern/runtime/record-scheduler.h`).

All waiting threads stand in one list `waitq`, whatever they wait for; what a thread waits for, until
which turn, and how it was woken is in its own slot `waits[tid]`. Three functions of the scheduler
walk the list and take threads out of it: `signal`, `fireTimeouts` and `wakeUpIdleThread`. They are
one loop, `scan`, with a test, a write to the slot of each thread taken, and a flag that says whether
to stop after the first one.

`Core` is the scheduler's state without its run queues; the three functions return the tids they took
out, in order, and the scheduler links these into a run queue.

* `scan_woken_all`, `scan_woken_one` — which threads a pass takes: all that pass the test, in queue
  order, or the earliest one.
* `scan_kept_all`, `scan_kept_eq` — what stays, in its old order.
* `scan_frame`, `scan_wake` — the slots of the other threads are untouched.
-/

import MinSmt.Scheduler.TidMap
import Mathlib.Data.List.Count
import Mathlib.Data.List.Lex
import Mathlib.Data.List.Perm.Subperm

namespace MinSmt

/-- What a thread can wait on. The source uses the address of the object (or the handle of the
thread to join) as a `void *`; distinct objects have distinct addresses. -/
inductive Chan
  | mutex (addr : Nat)
  | rwlock (addr : Nat)
  | cond (addr : Nat)
  | sem (addr : Nat)
  | barrier (addr : Nat)
  | lineup (opaqueType : Nat)
  | thread (th : PthreadT)
  | idleCond
  | nonDetCV
  deriving DecidableEq, Repr

/-- `unsigned` has 32 bits. -/
def unsignedMod : Nat := 4294967296

/-- `Serializer::FOREVER`, that is `UINT_MAX`. -/
def forever : Nat := unsignedMod - 1

/-- `ETIMEDOUT` of `errno.h`. -/
def etimedout : Nat := 110

/-- `wait_t::Wake_Reasons`. -/
inductive WakeReason
  | signal
  | timedout
  deriving DecidableEq, Repr

/-- The value of the enumerator, which `RRScheduler::wait` returns as an `int`. -/
def WakeReason.toInt : WakeReason → Nat
  | .signal => 0
  | .timedout => 1

/-- `wait_t`, one slot per thread. `sem` is the value of the semaphore; the mutex and the condition
variable of the hybrid relay only make the hand-over of `wakenUp` atomic. -/
structure WaitT where
  chan : Option Chan := none
  timeout : Nat := forever
  status : Nat := 0
  wakenUp : Bool := false
  sem : Nat := 0
  wakeReason : WakeReason := .signal
  wokenUpFromHpQueueFlag : Bool := false
  runnable : Bool := true
  deriving DecidableEq, Repr

/-- `wait_t::reset`. -/
def WaitT.reset (w : WaitT) (status : Nat := 0) : WaitT :=
  { w with
    chan := none
    timeout := forever
    status := status
    wakenUp := false
    runnable := true }

/-! ### One pass over the wait queue -/

/-- A sublist without duplicates that keeps all elements with a property keeps them in their order. -/
theorem filter_eq_of_sublist {α : Type} {p p' : α → Bool} {l l' : List α} (shorter : l'.Sublist l)
    (nodup : l.Nodup) (same : ∀ a ∈ l', p' a = p a) (stays : ∀ a ∈ l, p a = true → a ∈ l') :
    l'.filter p' = l.filter p := by
  rw [List.filter_congr same]
  refine (shorter.filter p).eq_of_length_le ?_
  refine List.Subperm.length_le (List.subperm_of_subset (nodup.filter p) fun a member => ?_)
  obtain ⟨inside, holds⟩ := List.mem_filter.mp member
  exact List.mem_filter.mpr ⟨stays a inside holds, holds⟩

/-- What a pass leaves: the slots, the threads still waiting and the threads taken out. -/
structure Scan where
  waits : Tid → WaitT
  kept : List Tid
  woken : List Tid

section Scan

variable (hit : WaitT → Tid → Bool) (wake : WaitT → WaitT) (all : Bool)

/-- The loop of `signal`, `fireTimeouts` and `wakeUpIdleThread` over the rest of `waitq`. -/
def scan (waits : Tid → WaitT) : List Tid → Scan
  | [] => ⟨waits, [], []⟩
  | tid :: rest =>
    if hit (waits tid) tid then
      let waits := Function.update waits tid (wake (waits tid))
      if all then
        let later := scan waits rest
        { later with woken := tid :: later.woken }
      else ⟨waits, rest, [tid]⟩
    else
      let later := scan waits rest
      { later with kept := tid :: later.kept }

variable {hit wake all} {waits : Tid → WaitT}

theorem scan_cons_miss {tid : Tid} {rest : List Tid} (miss : hit (waits tid) tid = false) :
    scan hit wake all waits (tid :: rest) =
      ⟨(scan hit wake all waits rest).waits, tid :: (scan hit wake all waits rest).kept,
        (scan hit wake all waits rest).woken⟩ := by
  simp [scan, miss]

theorem scan_cons_all {tid : Tid} {rest : List Tid} (found : hit (waits tid) tid = true) :
    scan hit wake true waits (tid :: rest) =
      ⟨(scan hit wake true (Function.update waits tid (wake (waits tid))) rest).waits,
        (scan hit wake true (Function.update waits tid (wake (waits tid))) rest).kept,
        tid :: (scan hit wake true (Function.update waits tid (wake (waits tid))) rest).woken⟩ := by
  simp [scan, found]

theorem scan_cons_one {tid : Tid} {rest : List Tid} (found : hit (waits tid) tid = true) :
    scan hit wake false waits (tid :: rest) =
      ⟨Function.update waits tid (wake (waits tid)), rest, [tid]⟩ := by
  simp [scan, found]

/-- A pass only moves threads. -/
theorem scan_count (waits : Tid → WaitT) (queue : List Tid) (t : Tid) :
    queue.count t = (scan hit wake all waits queue).kept.count t +
      (scan hit wake all waits queue).woken.count t := by
  induction queue generalizing waits with
  | nil => rfl
  | cons tid rest ih =>
    cases found : hit (waits tid) tid with
    | false =>
      rw [scan_cons_miss found, List.count_cons, List.count_cons, ih waits]
      show _ + _ + _ = _ + _ + (scan hit wake all waits rest).woken.count t
      omega
    | true =>
      cases all with
      | true =>
        rw [scan_cons_all found, List.count_cons, List.count_cons,
          ih (Function.update waits tid (wake (waits tid)))]
        show _ + _ + _ = (scan hit wake true _ rest).kept.count t + (_ + _)
        omega
      | false =>
        rw [scan_cons_one found, List.count_cons, List.count_singleton]

theorem scan_woken_subset (waits : Tid → WaitT) (queue : List Tid) {t : Tid}
    (woken : t ∈ (scan hit wake all waits queue).woken) : t ∈ queue := by
  have count := @scan_count hit wake all waits queue t
  have positive := List.count_pos_iff.mpr woken
  exact List.count_pos_iff.mp (by omega)

theorem scan_kept_subset (waits : Tid → WaitT) (queue : List Tid) {t : Tid}
    (kept : t ∈ (scan hit wake all waits queue).kept) : t ∈ queue := by
  have count := @scan_count hit wake all waits queue t
  have positive := List.count_pos_iff.mpr kept
  exact List.count_pos_iff.mp (by omega)

/-- What stays, stays in its order. -/
theorem scan_kept_sublist (waits : Tid → WaitT) (queue : List Tid) :
    (scan hit wake all waits queue).kept.Sublist queue := by
  induction queue generalizing waits with
  | nil => exact List.Sublist.refl _
  | cons tid rest ih =>
    cases found : hit (waits tid) tid with
    | false =>
      rw [scan_cons_miss found]
      exact (ih waits).cons_cons tid
    | true =>
      cases all with
      | true =>
        rw [scan_cons_all found]
        exact (ih _).cons tid
      | false =>
        rw [scan_cons_one found]
        exact List.sublist_cons_self tid rest

/-- A thread of a duplicate-free queue stays or is taken, not both. -/
theorem scan_kept_iff {queue : List Tid} (nodup : queue.Nodup) {t : Tid} :
    t ∈ (scan hit wake all waits queue).kept ↔
      t ∈ queue ∧ t ∉ (scan hit wake all waits queue).woken := by
  have count := @scan_count hit wake all waits queue t
  have once := List.nodup_iff_count_le_one.mp nodup t
  rw [← List.count_pos_iff, ← List.count_pos_iff, ← List.count_pos_iff]
  omega

/-- **What stays is the queue without what is taken, in its order.** -/
theorem scan_kept_eq {queue : List Tid} (nodup : queue.Nodup) :
    (scan hit wake all waits queue).kept =
      queue.filter fun t => decide (t ∉ (scan hit wake all waits queue).woken) := by
  have kept := @scan_kept_iff hit wake all waits queue nodup
  have others : ∀ t ∈ (scan hit wake all waits queue).kept,
      decide (t ∉ (scan hit wake all waits queue).woken) = true :=
    fun t stays => decide_eq_true (kept.mp stays).2
  refine (List.filter_eq_self.mpr others).symm.trans ?_
  refine filter_eq_of_sublist (scan_kept_sublist _ _) nodup (fun _ _ => rfl) fun t inside outside => ?_
  exact kept.mpr ⟨inside, of_decide_eq_true outside⟩

/-- The slot of a thread that is not taken out is not written. -/
theorem scan_frame (queue : List Tid) {t : Tid}
    (outside : t ∉ (scan hit wake all waits queue).woken) :
    (scan hit wake all waits queue).waits t = waits t := by
  induction queue generalizing waits with
  | nil => rfl
  | cons tid rest ih =>
    cases found : hit (waits tid) tid with
    | false =>
      rw [scan_cons_miss found] at outside ⊢
      exact ih outside
    | true =>
      cases all with
      | true =>
        rw [scan_cons_all found] at outside ⊢
        have different : t ≠ tid := fun same => outside (by simp [same])
        exact (ih fun inside => outside (List.mem_cons_of_mem _ inside)).trans
          (Function.update_of_ne different _ _)
      | false =>
        rw [scan_cons_one found] at outside ⊢
        exact Function.update_of_ne (fun same => outside (by simp [same])) _ _

/-- A thread whose slot a pass over a duplicate-free queue writes, has it written once. -/
theorem scan_wake {queue : List Tid} (nodup : queue.Nodup) {t : Tid}
    (woken : t ∈ (scan hit wake all waits queue).woken) :
    (scan hit wake all waits queue).waits t = wake (waits t) := by
  induction queue generalizing waits with
  | nil => cases woken
  | cons tid rest ih =>
    obtain ⟨fresh, nodup'⟩ := List.nodup_cons.mp nodup
    cases found : hit (waits tid) tid with
    | false =>
      rw [scan_cons_miss found] at woken ⊢
      exact ih nodup' woken
    | true =>
      cases all with
      | true =>
        rw [scan_cons_all found] at woken ⊢
        rcases List.mem_cons.mp woken with rfl | later
        · refine (scan_frame rest ?_).trans (Function.update_self _ _ _)
          exact fun inside => fresh (scan_woken_subset _ rest inside)
        · have different : t ≠ tid := fun same => fresh (same ▸ scan_woken_subset _ rest later)
          show (scan hit wake true (Function.update waits tid (wake (waits tid))) rest).waits t = _
          rw [ih nodup' later, Function.update_of_ne different]
      | false =>
        rw [scan_cons_one found] at woken ⊢
        obtain rfl := List.mem_singleton.mp woken
        exact Function.update_self _ _ _

/-- The test of a later thread is not affected by a write to an earlier slot. -/
theorem hit_update {tid : Tid} {rest : List Tid} (fresh : tid ∉ rest) (slot : WaitT) {t : Tid}
    (member : t ∈ rest) : hit (Function.update waits tid slot t) t = hit (waits t) t := by
  have different : t ≠ tid := fun same => fresh (same ▸ member)
  rw [Function.update_of_ne different]

/-- **A pass over all threads takes exactly those that pass the test, in queue order.** -/
theorem scan_woken_all {queue : List Tid} (nodup : queue.Nodup) :
    (scan hit wake true waits queue).woken = queue.filter fun t => hit (waits t) t := by
  induction queue generalizing waits with
  | nil => rfl
  | cons tid rest ih =>
    obtain ⟨fresh, nodup'⟩ := List.nodup_cons.mp nodup
    cases found : hit (waits tid) tid with
    | false =>
      rw [scan_cons_miss found, List.filter_cons_of_neg (by simp [found])]
      exact ih nodup'
    | true =>
      rw [scan_cons_all found, List.filter_cons_of_pos (by simp [found])]
      show tid :: _ = _
      rw [ih nodup']
      exact congrArg (tid :: ·) (List.filter_congr fun t member => hit_update fresh _ member)

/-- **A pass over all threads keeps the others in their order.** -/
theorem scan_kept_all {queue : List Tid} (nodup : queue.Nodup) :
    (scan hit wake true waits queue).kept = queue.filter fun t => !hit (waits t) t := by
  induction queue generalizing waits with
  | nil => rfl
  | cons tid rest ih =>
    obtain ⟨fresh, nodup'⟩ := List.nodup_cons.mp nodup
    cases found : hit (waits tid) tid with
    | false =>
      rw [scan_cons_miss found, List.filter_cons_of_pos (by simp [found])]
      exact congrArg (tid :: ·) (ih nodup')
    | true =>
      rw [scan_cons_all found, List.filter_cons_of_neg (by simp [found])]
      show (scan hit wake true _ rest).kept = _
      rw [ih nodup']
      exact List.filter_congr fun t member => congrArg not (hit_update fresh _ member)

/-- **A pass that stops at the first hit takes the earliest thread that passes the test.** -/
theorem scan_woken_one (queue : List Tid) :
    (scan hit wake false waits queue).woken = (queue.find? fun t => hit (waits t) t).toList := by
  induction queue with
  | nil => rfl
  | cons tid rest ih =>
    cases found : hit (waits tid) tid with
    | false =>
      rw [scan_cons_miss found, List.find?_cons_of_neg (by simp [found])]
      exact ih
    | true =>
      rw [scan_cons_one found, List.find?_cons_of_pos (by simp [found])]
      rfl

/-- Whatever is taken out passed the test. -/
theorem scan_woken_hit {queue : List Tid} (nodup : queue.Nodup) {t : Tid}
    (woken : t ∈ (scan hit wake all waits queue).woken) : hit (waits t) t = true := by
  cases all with
  | true =>
    rw [scan_woken_all nodup] at woken
    exact (List.mem_filter.mp woken).2
  | false =>
    rw [scan_woken_one, Option.mem_toList] at woken
    exact @List.find?_some _ (fun t => hit (waits t) t) _ _ woken

end Scan

/-! ### The scheduler's state without its run queues -/

/-- The parts of `RRScheduler` that do not depend on the order of the run queues. -/
structure Core where
  tm : TidMap
  waitq : List Tid := []
  waits : Tid → WaitT := fun _ => {}
  turnCount : Nat := 0

namespace Core

/-- Run one pass over `waitq`, and say who was taken out. -/
def pass (c : Core) (hit : WaitT → Tid → Bool) (wake : WaitT → WaitT) (all : Bool) :
    Core × List Tid :=
  let result := scan hit wake all c.waits c.waitq
  ({ c with waits := result.waits, waitq := result.kept }, result.woken)

/-- `RRScheduler::signal`, without the queues. -/
def signal (c : Core) (chan : Chan) (all : Bool) : Core × List Tid :=
  c.pass (fun w _ => w.chan == some chan) (fun w => { w.reset with wakeReason := .signal }) all

/-- `RRScheduler::fireTimeouts`, without the queues. -/
def fireTimeouts (c : Core) : Core × List Tid :=
  c.pass (fun w _ => decide (w.timeout < c.turnCount))
    (fun w => { w.reset etimedout with wakeReason := .timedout }) true

/-- The loop of `RRScheduler::wakeUpIdleThread`, without the queues. -/
def wakeIdle (c : Core) : Core × List Tid :=
  c.pass (fun _ tid => tid == idleThreadTid) (fun w => w.reset) false

/-- `Serializer::incTurnCount`. -/
def tick (c : Core) : Core := { c with turnCount := (c.turnCount + 1) % unsignedMod }

/-- `Serializer::getTurnCount`. -/
def getTurnCount (c : Core) : Nat := (c.turnCount + (unsignedMod - 1)) % unsignedMod

/-- The writes of `RRScheduler::wait` to the slot and to `waitq`. -/
def enqueue (c : Core) (tid : Tid) (chan : Option Chan) (timeout : Nat) : Core :=
  { c with
    waits := Function.update c.waits tid { c.waits tid with chan := chan, timeout := timeout }
    waitq := c.waitq ++ [tid] }

end Core

end MinSmt
