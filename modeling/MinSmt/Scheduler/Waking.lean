/-
**How threads leave the wait queue.**

The operations of a turn, without the run queues: a signal, the count of a turn, the end of a thread.

* `Core.Passed why c c'` — what passes over the wait queue can do.
* `Left` — how a thread left the wait queue: by a signal on what it waited for, or by its deadline.
* `Core.Turned chan c c'` — what the operations of a turn can do to the wait queue: they keep its order
  and the slots of the threads in it, and a thread leaves it by a signal on `chan` or by expiry. The
  lemmas say that each operation does no more than that.
-/

import MinSmt.Scheduler.WaitQueue

namespace MinSmt

namespace Core

/-- `RRScheduler::incTurnCount`, without the queues and the side set. -/
def incTurnCount (c : Core) : Core := c.tick.fireTimeouts.1

/-- `RRScheduler::putTurn` at a thread's end, without the queues. -/
def finish (c : Core) (tid : Tid) : Core :=
  let c := match c.tm.tToP tid with
    | some th => (c.signal (.thread th) false).1
    | none => c
  { c with tm := c.tm.zombify tid }

/-- The thread has been created and has not ended. -/
def Live (c : Core) (t : Tid) : Prop := (c.tm.tToP t).isSome = true

instance (c : Core) (t : Tid) : Decidable (c.Live t) := inferInstanceAs (Decidable (_ = true))

end Core

/-! ### What a turn does to the wait queue -/

section Turned

/-- **What passes over the wait queue can do**: they keep its order and the slots of the threads that
stay in it, and `why` relates the slot of a thread that leaves before and after. -/
structure Core.Passed (why : WaitT → WaitT → Prop) (c c' : Core) : Prop where
  nodup : c'.waitq.Nodup
  kept : c'.waitq.Sublist c.waitq
  same : ∀ t, t ∈ c'.waitq ∨ t ∉ c.waitq → c'.waits t = c.waits t
  gone : ∀ t ∈ c.waitq, t ∉ c'.waitq → why (c.waits t) (c'.waits t)

namespace Core.Passed

variable {why : WaitT → WaitT → Prop} {c c' : Core}

/-- Nothing happens to the wait queue. -/
theorem still (nodup : c.waitq.Nodup) (waitq : c'.waitq = c.waitq) (waits : c'.waits = c.waits) :
    Passed why c c' := by
  refine ⟨waitq ▸ nodup, waitq ▸ List.Sublist.refl _, fun _ _ => by rw [waits], ?_⟩
  intro t inside outside
  rw [waitq] at outside
  exact absurd inside outside

theorem refl (why : WaitT → WaitT → Prop) (nodup : c.waitq.Nodup) : Passed why c c :=
  still nodup rfl rfl

/-- One more pass. -/
theorem pass (passed : Passed why c c') {hit : WaitT → Tid → Bool} {wake : WaitT → WaitT}
    (all : Bool) (leaves : ∀ t ∈ c'.waitq, hit (c'.waits t) t = true →
      why (c.waits t) (wake (c'.waits t))) :
    Passed why c (c'.pass hit wake all).1 := by
  have kept := @scan_kept_iff hit wake all c'.waits c'.waitq passed.nodup
  have frame : ∀ t, t ∉ (scan hit wake all c'.waits c'.waitq).woken →
      (c'.pass hit wake all).1.waits t = c'.waits t := fun t outside => scan_frame c'.waitq outside
  have shorter := @scan_kept_sublist hit wake all c'.waits c'.waitq
  refine ⟨passed.nodup.sublist shorter, shorter.trans passed.kept, fun t place => ?_,
    fun t inside outside => ?_⟩
  · rcases place with stays | never
    · have here := kept.mp stays
      rw [frame t here.2, passed.same t (Or.inl here.1)]
    · rw [frame t fun woken => never (passed.kept.subset (scan_woken_subset _ _ woken)),
        passed.same t (Or.inr never)]
  · by_cases here : t ∈ c'.waitq
    · have woken : t ∈ (scan hit wake all c'.waits c'.waitq).woken := by
        by_contra notWoken
        exact outside (kept.mpr ⟨here, notWoken⟩)
      have slot : (c'.pass hit wake all).1.waits t = wake (c'.waits t) :=
        scan_wake passed.nodup woken
      rw [slot]
      exact leaves t here (scan_woken_hit passed.nodup woken)
    · rw [frame t fun woken => here (scan_woken_subset _ _ woken)]
      exact passed.gone t inside here

end Core.Passed

/-- How a thread left the wait queue: by a signal on what it waited for, or because its deadline had
passed when the turn was counted. -/
def Left (chan : Option Chan) (turnCount : Nat) (before after : WaitT) : Prop :=
  (after.wakeReason = .signal ∧ before.chan.isSome = true ∧ before.chan = chan) ∨
    (after.wakeReason = .timedout ∧
      ∃ ticks, 0 < ticks ∧ before.timeout < (turnCount + ticks) % unsignedMod)

/-- **What the operations of a turn can do**, when they signal on `chan` only. -/
structure Core.Turned (chan : Option Chan) (c c' : Core) : Prop where
  nodup : c'.waitq.Nodup
  kept : c'.waitq.Sublist c.waitq
  same : ∀ t, t ∈ c'.waitq ∨ t ∉ c.waitq → c'.waits t = c.waits t
  gone : ∀ t ∈ c.waitq, t ∉ c'.waitq → Left chan c.turnCount (c.waits t) (c'.waits t)
  ticks : ∃ n, c'.turnCount % unsignedMod = (c.turnCount + n) % unsignedMod
  live : ∀ t, c.Live t → c'.Live t
  known : (∀ t, c.Live t → t < c.tm.nthread) → ∀ t, c'.Live t → t < c'.tm.nthread
  grown : c.tm.nthread ≤ c'.tm.nthread

namespace Core.Turned

variable {chan : Option Chan} {c c' : Core}

theorem refl (chan : Option Chan) (nodup : c.waitq.Nodup) : Turned chan c c :=
  ⟨nodup, List.Sublist.refl _, fun _ _ => rfl, fun _ inside outside => absurd inside outside,
    ⟨0, rfl⟩, fun _ => id, id, Nat.le_refl _⟩

/-- One more pass over the wait queue. -/
theorem pass (turned : Turned chan c c') {hit : WaitT → Tid → Bool} {wake : WaitT → WaitT}
    (all : Bool) (leaves : ∀ t ∈ c'.waitq, hit (c'.waits t) t = true →
      Left chan c.turnCount (c.waits t) (wake (c'.waits t))) :
    Turned chan c (c'.pass hit wake all).1 := by
  have before : Passed (Left chan c.turnCount) c c' :=
    ⟨turned.nodup, turned.kept, turned.same, turned.gone⟩
  have after := before.pass all leaves
  exact ⟨after.nodup, after.kept, after.same, after.gone, turned.ticks, turned.live, turned.known,
    turned.grown⟩

theorem signal (turned : Turned chan c c') {on : Chan} (isChan : chan = some on) (all : Bool) :
    Turned chan c (c'.signal on all).1 := by
  refine turned.pass all fun t inside found => Or.inl ⟨rfl, ?_⟩
  rw [← turned.same t (Or.inl inside), isChan, eq_of_beq found]
  exact ⟨rfl, rfl⟩

theorem incTurnCount (turned : Turned chan c c') : Turned chan c c'.incTurnCount := by
  obtain ⟨n, counted⟩ := turned.ticks
  have next : c'.tick.turnCount = (c.turnCount + (n + 1)) % unsignedMod := by
    show (c'.turnCount + 1) % unsignedMod = _
    unfold unsignedMod at counted ⊢
    omega
  have ticked : Turned chan c c'.tick :=
    ⟨turned.nodup, turned.kept, turned.same, turned.gone, ⟨n + 1, by rw [next, Nat.mod_mod]⟩,
      turned.live, turned.known, turned.grown⟩
  refine ticked.pass true fun t inside late => Or.inr ⟨rfl, n + 1, Nat.succ_pos n, ?_⟩
  rw [← ticked.same t (Or.inl inside), ← next]
  exact of_decide_eq_true late

/-- The thread maps change, and no thread ends. -/
theorem relabel (turned : Turned chan c c') {tm : TidMap}
    (live : ∀ t, c'.Live t → (tm.tToP t).isSome = true)
    (known : (∀ t, c'.Live t → t < c'.tm.nthread) → ∀ t, (tm.tToP t).isSome = true → t < tm.nthread)
    (grown : c'.tm.nthread ≤ tm.nthread) : Turned chan c { c' with tm := tm } :=
  ⟨turned.nodup, turned.kept, turned.same, turned.gone, turned.ticks,
    fun t alive => live t (turned.live t alive), fun before => known (turned.known before),
    turned.grown.trans grown⟩

theorem create (turned : Turned chan c c') (wakeamapPlus : Bool) (th : PthreadT)
    (threadFunc : ThreadFunc) :
    Turned chan c { c' with tm := c'.tm.create wakeamapPlus th threadFunc } := by
  refine turned.relabel (fun t alive => ?_) (fun before t alive => ?_) (Nat.le_succ _)
  · rw [TidMap.create_tToP]
    by_cases same : t = c'.tm.nthread
    · rw [same, Function.update_self]
      rfl
    · rwa [Function.update_of_ne same]
  · rw [TidMap.create_tToP] at alive
    rw [TidMap.create_nthread]
    by_cases same : t = c'.tm.nthread
    · exact same ▸ Nat.lt_succ_self _
    · rw [Function.update_of_ne same] at alive
      exact Nat.lt_succ_of_lt (before t alive)

theorem join (turned : Turned chan c c') (th : PthreadT) :
    Turned chan c { c' with tm := c'.tm.reap th } :=
  turned.relabel (fun _ => id) id (Nat.le_refl _)

/-- Who signals nothing may signal anything. -/
theorem weaken (turned : Turned none c c') (chan : Option Chan) : Turned chan c c' := by
  refine ⟨turned.nodup, turned.kept, turned.same, fun t inside outside => ?_, turned.ticks,
    turned.live, turned.known, turned.grown⟩
  rcases turned.gone t inside outside with ⟨_, some, isNone⟩ | late
  · rw [isNone] at some
    cases some
  · exact Or.inr late

end Core.Turned

end Turned

end MinSmt
