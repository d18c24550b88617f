/-
**The scans of the wait queue are stable partitions** (`RRScheduler::signal`, `RRScheduler::fireTimeouts`).

* `Sched.Partitioned` — some threads have left `waitq`, and each has gone to the end of its run queue,
  in their order; the others stay in their order.
* `Sched.partitioned_of_pass` — a pass over `waitq` does that to the threads that it takes out.
* `Sched.scans_partition` — which threads `signal` and `fireTimeouts` take out.
-/

import MinSmt.Scheduler.Layout

namespace MinSmt

namespace Sched

/-- **A stable partition of the wait queue.** The threads `woken` have left `waitq` for the ends of
`hp_runq` and `runq`, in their order, and their slots are reset with the reason; the other threads stay
in `waitq` in their order, with their slots, and the run queues begin with what they held. -/
structure Partitioned (o : Options) (woken : List Tid) (reason : WakeReason) (runq hp : List Tid)
    (s s' : Sched) : Prop where
  stay : s'.waitq = s.waitq.filter fun t => decide (t ∉ woken)
  queues : Linked s'.elems s'.runq s'.hpRunq
    (runq ++ woken.filter fun t => !o.goesToHp t) (hp ++ woken.filter o.goesToHp)
  reset : ∀ t ∈ woken, (s'.waits t).chan = none ∧ (s'.waits t).timeout = forever ∧
    (s'.waits t).wakeReason = reason
  slots : ∀ t, t ∉ woken → s'.waits t = s.waits t
  status : ∀ t, (s'.elems t).status = (s.elems t).status
  rest : s' = { s with
    waits := s'.waits
    waitq := s'.waitq
    elems := s'.elems
    runq := s'.runq
    hpRunq := s'.hpRunq }

section Scans

variable {o : Options} {s : Sched} {runq hp : List Tid} (rr : 0 ≤ o.enforceTurnType) (nodup : s.waitq.Nodup)
  (linked : Linked s.elems s.runq s.hpRunq runq hp) (apart : ∀ t ∈ s.waitq, t ∉ runq ∧ t ∉ hp)

include rr nodup linked apart

/-- **A pass over the wait queue partitions it.** -/
theorem partitioned_of_pass {hit : WaitT → Tid → Bool} {wake : WaitT → WaitT} {all : Bool} {reason : WakeReason}
    (resets : ∀ w, (wake w).chan = none ∧ (wake w).timeout = forever ∧ (wake w).wakeReason = reason) :
    Partitioned o (s.toCore.pass hit wake all).2 reason runq hp s
      ((s.toCore.pass hit wake all).2.foldl (makeRunnable o)
        { s with toCore := (s.toCore.pass hit wake all).1 }) := by
  have inside : ∀ t ∈ (s.toCore.pass hit wake all).2, t ∈ s.waitq := fun t woken => scan_woken_subset _ _ woken
  have distinct : (s.toCore.pass hit wake all).2.Nodup := by
    refine List.nodup_iff_count_le_one.mpr fun t => ?_
    have count := @scan_count hit wake all s.waits s.waitq t
    have once := List.nodup_iff_count_le_one.mp nodup t
    show (scan hit wake all s.waits s.waitq).woken.count t ≤ 1
    omega
  obtain ⟨elems, q, h, folded, linked', status⟩ := @foldl_makeRunnable_queues o
    { s with toCore := (s.toCore.pass hit wake all).1 } runq hp rr _ linked distinct
    fun t woken => apart t (inside t woken)
  rw [folded]
  refine ⟨scan_kept_eq nodup, linked', fun t woken => ?_, fun t outside => scan_frame _ outside, status, rfl⟩
  have isWoken : (s.toCore.pass hit wake all).1.waits t = wake (s.waits t) := scan_wake nodup woken
  show ((s.toCore.pass hit wake all).1.waits t).chan = none ∧ ((s.toCore.pass hit wake all).1.waits t).timeout =
    forever ∧ ((s.toCore.pass hit wake all).1.waits t).wakeReason = reason
  rw [isWoken]
  exact resets _

end Scans

/-- **`signal` and `fireTimeouts` partition the wait queue.** A broadcast takes out exactly the threads
that wait on the channel, a signal the first of them, and the count of a turn exactly those whose
deadline has passed. -/
theorem scans_partition {o : Options} {s : Sched} {runq hp : List Tid} (rr : o.RoundRobin)
    (nodup : s.waitq.Nodup) (linked : Linked s.elems s.runq s.hpRunq runq hp)
    (apart : ∀ t ∈ s.waitq, t ∉ runq ∧ t ∉ hp) :
    (∀ chan, Partitioned o (s.waitq.filter fun t => (s.waits t).chan == some chan) .signal runq hp s
      (s.signal o chan true)) ∧
    (∀ chan, Partitioned o (s.waitq.find? fun t => (s.waits t).chan == some chan).toList .signal runq hp s
      (s.signal o chan false)) ∧
    Partitioned o (s.waitq.filter fun t => decide ((s.waits t).timeout < s.turnCount)) .timedout runq hp s
      (s.fireTimeouts o) := by
  have queues : 0 ≤ o.enforceTurnType := by
    rcases rr with isType | isType | isType <;> omega
  refine ⟨fun chan => ?_, fun chan => ?_, ?_⟩
  · have taken : (s.toCore.signal chan true).2 = s.waitq.filter fun t => (s.waits t).chan == some chan :=
      scan_woken_all nodup
    rw [← taken]
    exact partitioned_of_pass queues nodup linked apart fun _ => ⟨rfl, rfl, rfl⟩
  · have taken : (s.toCore.signal chan false).2 =
        (s.waitq.find? fun t => (s.waits t).chan == some chan).toList := scan_woken_one _
    rw [← taken]
    exact partitioned_of_pass queues nodup linked apart fun _ => ⟨rfl, rfl, rfl⟩
  · have taken : s.toCore.fireTimeouts.2 =
        s.waitq.filter fun t => decide ((s.waits t).timeout < s.turnCount) := scan_woken_all nodup
    rw [← taken]
    exact partitioned_of_pass queues nodup linked apart fun _ => ⟨rfl, rfl, rfl⟩

/-- Where a broadcast on the condition variable `7` finds the threads `2` and the idle thread, and `3`
waits for another one. -/
def threeWaiting : Sched where
  tm := TidMap.init false 100
  waitq := [2, 1, 3]
  waits := fun t => if t = 3 then { chan := some (.cond 8) } else { chan := some (.cond 7) }
  elems := fun _ => {}
  runq := { head := some 0, tail := some 0, numElements := 1 }

theorem scans_partition_threeWaiting :
    Partitioned { schedulingPolicy := 4 } [2, 1] .signal [0] [] threeWaiting
      (threeWaiting.signal { schedulingPolicy := 4 } (.cond 7) true) ∧
    (threeWaiting.signal { schedulingPolicy := 4 } (.cond 7) true).waitq = [3] := by
  have linked : Linked threeWaiting.elems threeWaiting.runq threeWaiting.hpRunq [0] [] :=
    ⟨⟨Library.IsQueue.single rfl, rfl⟩, ⟨Library.IsQueue.empty, rfl⟩, by simp, fun _ _ _ => ⟨rfl, rfl⟩⟩
  have rr : Options.RoundRobin { schedulingPolicy := 4 } := by decide
  have nodup : threeWaiting.waitq.Nodup := by decide
  have apart : ∀ t ∈ threeWaiting.waitq, t ∉ [0] ∧ t ∉ ([] : List Tid) := by decide
  have there := (scans_partition rr nodup linked apart).1 (.cond 7)
  have taken : (threeWaiting.waitq.filter fun t => (threeWaiting.waits t).chan == some (.cond 7)) = [2, 1] := by
    decide
  rw [taken] at there
  exact ⟨there, there.stay⟩

/-- The hypotheses hold in every reachable state. -/
theorem Layout.scannable {o : Options} {late : List Tid} {s : Sched} {runq hp : List Tid}
    (layout : Layout o late s runq hp) : s.waitq.Nodup ∧ Linked s.elems s.runq s.hpRunq runq hp ∧
      ∀ t ∈ s.waitq, t ∉ runq ∧ t ∉ hp :=
  ⟨layout.waitq_nodup, layout.linked, fun _ waiting =>
    ⟨(layout.waitq_live waiting).2.1, (layout.waitq_live waiting).2.2.1⟩⟩

end Sched

end MinSmt
