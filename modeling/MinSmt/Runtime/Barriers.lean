/-
**Barriers** (`pthreadBarrierWait`).

The wrapper counts the threads that have arrived by itself and never calls the library. The thread that
makes the barrier full resets the counter, wakes everyone who waits on the barrier and gives the turn
away once; the others do not look at the barrier again when they are woken. What holds all this
together is that the wait queue has exactly the last `narrived` arrivals.

* `BarrierLog` — the calls on one barrier: who arrived, in which order, and what was returned.
* `BarrierInv` — the counter, the wait queue and the threads' places in terms of that log.
* `barrierInv_arrive`, `barrierInv_leave`, `barrierInv_other` — the three kinds of turns.
* **`barrier_groups`** — the calls return group by group, in any order of turns.
-/

import MinSmt.Runtime.Waiters

namespace MinSmt

open MinSmt.Library

/-! ### Counting in groups -/

section Groups

variable {n len : Nat}

/-- The counter and the number of complete groups after one more arrival. -/
theorem group_full (full : n = len % n + 1) : (len + 1) / n = len / n + 1 ∧ (len + 1) % n = 0 := by
  have split : len + 1 = n * (len / n + 1) := by
    have divided := Nat.div_add_mod len n
    rw [Nat.mul_add, Nat.mul_one]
    omega
  rw [split]
  exact ⟨Nat.mul_div_cancel_left _ (by omega), Nat.mul_mod_right n _⟩

theorem group_open (positive : 0 < n) (notFull : n ≠ len % n + 1) :
    (len + 1) / n = len / n ∧ (len + 1) % n = len % n + 1 := by
  have below := Nat.mod_lt len positive
  have split : len + 1 = n * (len / n) + (len % n + 1) := by
    have divided := Nat.div_add_mod len n
    omega
  have quotient := Nat.mul_add_div positive (len / n) (len % n + 1)
  have rest := Nat.mul_add_mod n (len / n) (len % n + 1)
  rw [← split] at quotient rest
  have small : len % n + 1 < n := by omega
  rw [Nat.div_eq_of_lt small] at quotient
  rw [Nat.mod_eq_of_lt small] at rest
  exact ⟨quotient, rest⟩

/-- A call is in a complete group when the whole group has arrived. -/
theorem group_complete_iff {i : Nat} (positive : 0 < n) :
    i < len / n * n ↔ (i / n + 1) * n ≤ len := by
  rw [← Nat.div_lt_iff_lt_mul positive, ← Nat.le_div_iff_mul_le positive]
  exact Iff.rfl

theorem group_lt_of_lt {i j : Nat} (positive : 0 < n) (before : i < j / n * n) : i / n < j / n :=
  (Nat.div_lt_iff_lt_mul positive).mpr before

theorem groups_le (n len : Nat) : len / n * n ≤ len := Nat.div_mul_le_self len n

theorem groups_mono {len' : Nat} (le : len ≤ len') : len / n * n ≤ len' / n * n :=
  Nat.mul_le_mul_right n (Nat.div_le_div_right le)

end Groups

/-! ### The calls on a barrier -/

/-- The calls on one barrier. They are numbered in the order in which they arrived; `call t` is the
number of the last call of the thread `t`. -/
structure BarrierLog where
  arrived : List Tid := []
  returned : List (Nat × Int) := []
  call : Tid → Nat := fun _ => 0

namespace BarrierLog

variable (log : BarrierLog) (tid : Tid)

def arrive : BarrierLog :=
  { log with
    arrived := log.arrived ++ [tid]
    call := Function.update log.call tid log.arrived.length }

def leave (ret : Int) : BarrierLog :=
  { log with returned := (log.call tid, ret) :: log.returned }

end BarrierLog

/-- The thread is back in `pthreadBarrierWait`, and about to return. -/
def Stage.atBarrier (barrier : Nat) : Stage → Bool
  | .barrierWoken b => b == barrier
  | .barrierLast b => b == barrier
  | _ => false

/-- The wrapper initialises or destroys the barrier. -/
def Stage.resets (barrier : Nat) : Stage → Bool
  | .called (.barrierInit b _) => b == barrier
  | .called (.barrierDestroy b) => b == barrier
  | _ => false

/-- What a returning wrapper returns. -/
def Finish.ret : Finish → Int
  | .done _ result => result.ret
  | _ => 0

/-- What a turn adds to the log. -/
def BarrierLog.turn (log : BarrierLog) (barrier : Nat) (tid : Tid) (stage : Stage)
    (finish : Finish) : BarrierLog :=
  if stage = .called (.barrierWait barrier) then log.arrive tid
  else if stage.atBarrier barrier then log.leave tid finish.ret
  else log

/-- What the call with this number returns, in groups of `n`. -/
def groupRet (n i : Nat) : Int := if i % n = n - 1 then barrierSerialThread else 0

namespace Recorder

/-- What a step adds to the log. -/
def logStep (o : Options) (barrier : Nat) (r : Recorder) (log : BarrierLog)
    (label : Tid × Move) : BarrierLog :=
  match r.stageOf label.1 label.2 with
  | some stage => log.turn barrier label.1 stage (r.turnOf o label.1 stage).2
  | none => log

/-- **The log of a run.** -/
def barrierLog (o : Options) (barrier : Nat) : Recorder → BarrierLog → List (Tid × Move) → BarrierLog
  | _, log, [] => log
  | r, log, label :: labels =>
    match r.step o label with
    | some next => barrierLog o barrier next (r.logStep o barrier log label) labels
    | none => log

/-- A turn neither initialises nor destroys the barrier. -/
def KeepsBarrier (barrier : Nat) (r : Recorder) (label : Tid × Move) : Prop :=
  ∀ stage ∈ r.stageOf label.1 label.2, stage.resets barrier = false

instance (barrier : Nat) (r : Recorder) (label : Tid × Move) :
    Decidable (KeepsBarrier barrier r label) := inferInstanceAs (Decidable (∀ _ ∈ _, _))

/-! ### The invariant -/

/-- The thread is in `pthreadBarrierWait`. -/
def AtBarrier (barrier : Nat) (spot : Spot) : Prop :=
  ∃ stage, spot = .inside stage ∧ stage.atBarrier barrier = true

/-- **The counter, the wait queue and the threads, in terms of the calls.** -/
structure BarrierInv (n barrier : Nat) (r : Recorder) (log : BarrierLog) : Prop where
  counter : r.shared.barriers barrier = some ⟨n, log.arrived.length % n⟩
  waiters : r.core.waiters (.barrier barrier) =
    log.arrived.drop (log.arrived.length / n * n)
  /-- A thread in the wrapper is there with its last call, which has not returned. -/
  pending : ∀ t, AtBarrier barrier (r.spot t) →
    log.arrived[log.call t]? = some t ∧ log.call t ∉ log.returned.map Prod.fst
  /-- The last thread of a group does not wait, and the others do. -/
  last : ∀ t, r.spot t = .inside (.barrierLast barrier) →
    log.call t % n = n - 1 ∧ log.call t < log.arrived.length / n * n
  woken : ∀ t, r.spot t = .inside (.barrierWoken barrier) → log.call t % n ≠ n - 1 ∧
    (t ∈ r.core.waitq ∨ log.call t < log.arrived.length / n * n)
  latest : ∀ i t, log.arrived[i]? = some t → i ≤ log.call t
  apart : ∀ i j t, i < j → log.arrived[i]? = some t → log.arrived[j]? = some t → i / n < j / n
  returned : ∀ call ∈ log.returned, call.1 < log.arrived.length / n * n ∧ call.2 = groupRet n call.1
  once : (log.returned.map Prod.fst).Nodup
  kept : ∀ i t, log.arrived[i]? = some t → i ∈ log.returned.map Prod.fst ∨
    (log.call t = i ∧ AtBarrier barrier (r.spot t))

variable {o : Options} {n barrier : Nat} {r r' : Recorder} {log : BarrierLog} {tid : Tid}
  {stage : Stage}

/-- A thread that waits on the barrier is in the wrapper, and waits forever. -/
theorem waits_at_barrier (sound : Sound r.core r.spot) {t : Tid}
    (waits : t ∈ r.core.waiters (.barrier barrier)) :
    r.spot t = .inside (.barrierWoken barrier) ∧ (r.core.waits t).timeout = forever := by
  obtain ⟨inside, isBarrier⟩ := mem_waiters.mp waits
  have parked := sound.parked t inside
  cases spot : r.spot t with
  | outside =>
    rw [spot] at parked
    have idle := parked.1
    rw [isBarrier] at idle
    cases idle
  | returning =>
    rw [spot] at parked
    exact parked.elim
  | inside stage =>
    rw [spot] at parked
    obtain ⟨-, same, last⟩ := parked
    rw [isBarrier] at same
    cases stage with
    | barrierWoken b =>
      cases same
      exact ⟨rfl, last forever rfl⟩
    | retry loop => cases loop <;> cases same
    | _ => cases same

/-- As long as the list of the threads that wait there is the same, they stay in the wait queue. -/
theorem stays_at_barrier (sound : Sound r.core r.spot)
    (waiters : r'.core.waiters (.barrier barrier) = r.core.waiters (.barrier barrier)) {t : Tid}
    (here : r.spot t = .inside (.barrierWoken barrier)) (inside : t ∈ r.core.waitq) :
    t ∈ r'.core.waitq := by
  have parked := sound.parked t inside
  rw [here] at parked
  have waits : t ∈ r'.core.waiters (.barrier barrier) := by
    rw [waiters]
    exact mem_waiters.mpr ⟨inside, parked.2.1⟩
  exact (mem_waiters.mp waits).1

/-- What is not about the barrier keeps the invariant. -/
theorem BarrierInv.frame (inv : BarrierInv n barrier r log) (sound : Sound r.core r.spot)
    (counter : r'.shared.barriers barrier = r.shared.barriers barrier)
    (waiters : r'.core.waiters (.barrier barrier) = r.core.waiters (.barrier barrier))
    (spots : ∀ t, AtBarrier barrier (r'.spot t) ∨ AtBarrier barrier (r.spot t) →
      r'.spot t = r.spot t) : BarrierInv n barrier r' log := by
  have woken : AtBarrier barrier (.inside (.barrierWoken barrier)) := ⟨_, rfl, beq_self_eq_true _⟩
  have last : AtBarrier barrier (.inside (.barrierLast barrier)) := ⟨_, rfl, beq_self_eq_true _⟩
  refine ⟨counter.trans inv.counter, waiters.trans inv.waiters, fun t there => ?_, fun t there => ?_,
    fun t there => ?_, inv.latest, inv.apart, inv.returned, inv.once, fun i t isCall => ?_⟩
  · exact inv.pending t (spots t (Or.inl there) ▸ there)
  · exact inv.last t ((spots t (Or.inl (there.symm ▸ last))).symm.trans there)
  · have same := spots t (Or.inl (there.symm ▸ woken))
    obtain ⟨notLast, place⟩ := inv.woken t (same.symm.trans there)
    exact ⟨notLast, place.imp_left (stays_at_barrier sound waiters (same.symm.trans there))⟩
  · refine (inv.kept i t isCall).imp_right fun place => ⟨place.1, ?_⟩
    exact spots t (Or.inr place.2) ▸ place.2

/-- A thread about to take a turn elsewhere is not at the barrier. -/
theorem away_of_stageOf {move : Move} (isStage : r.stageOf tid move = some stage)
    (away : stage.atBarrier barrier = false) : ¬ AtBarrier barrier (r.spot tid) := by
  rintro ⟨here, isHere, atBarrier⟩
  cases move with
  | call call =>
    simp only [stageOf, isHere] at isStage
    cases isStage
  | resume =>
    simp only [stageOf, isHere] at isStage
    rw [Option.some.inj isStage, away] at atBarrier
    cases atBarrier
  | _ => cases isStage

/-- Only `pthreadBarrierWait` leads to the barrier. -/
theorem away_of_took (took : Took o r tid stage r') (other : stage.object ≠ some (.barrier barrier)) :
    ¬ AtBarrier barrier (r'.spot tid) := by
  rintro ⟨next, there, atBarrier⟩
  cases next with
  | barrierWoken b =>
    cases eq_of_beq atBarrier
    exact chan_of_object rfl other took there rfl
  | barrierLast b =>
    cases eq_of_beq atBarrier
    rcases took_inside took there with ⟨waits, -⟩ | ⟨b, rfl, isLast⟩
    · cases waits
    · cases isLast
      exact other rfl
  | _ => cases atBarrier

/-- Only the wrappers of barriers work on a barrier. -/
theorem barrier_of_object (isBarrier : stage.object = some (.barrier barrier)) :
    stage = .called (.barrierWait barrier) ∨ stage.resets barrier = true := by
  cases stage with
  | called call =>
    cases call with
    | barrierInit b count =>
      cases isBarrier
      exact Or.inr (beq_self_eq_true _)
    | barrierWait b =>
      cases isBarrier
      exact Or.inl rfl
    | barrierDestroy b =>
      cases isBarrier
      exact Or.inr (beq_self_eq_true _)
    | _ => cases isBarrier
  | retry loop => cases loop <;> cases isBarrier
  | _ => cases isBarrier

/-- A turn that works on another object leaves those who wait on the barrier. -/
theorem waiters_elsewhere (sound : Sound r.core r.spot) (took : Took o r tid stage r')
    (other : stage.object ≠ some (.barrier barrier)) :
    r'.core.waiters (.barrier barrier) = r.core.waiters (.barrier barrier) := by
  rw [took_waiters sound.nodup took (deaf_of_object rfl other) fun t waits =>
    (waits_at_barrier sound waits).2, joins_of_object rfl other, List.append_nil]

/-- **A turn that has nothing to do with the barrier.** -/
theorem barrierInv_other {move : Move} (inv : BarrierInv n barrier r log)
    (sound : Sound r.core r.spot) (isStage : r.stageOf tid move = some stage)
    (took : Took o r tid stage r') (other : stage.object ≠ some (.barrier barrier))
    (away : stage.atBarrier barrier = false) : BarrierInv n barrier r' log := by
  refine inv.frame sound ?_ ?_ fun t place => ?_
  · rw [took.shared]
    exact turn_barriers other
  · exact waiters_elsewhere sound took other
  · by_cases same : t = tid
    · subst same
      rcases place with there | here
      · exact absurd there (away_of_took took other)
      · exact absurd here (away_of_stageOf isStage away)
    · exact took.spots t same

/-- **A step without a turn.** -/
theorem barrierInv_idle {label : Tid × Move} (inv : BarrierInv n barrier r log)
    (sound : Sound r.core r.spot) (stepped : r.step o label = some r')
    (noTurn : r.stageOf label.1 label.2 = none) : BarrierInv n barrier r' log := by
  obtain ⟨shared, spots⟩ := idle_spots sound.nodup stepped noTurn
  refine inv.frame sound (by rw [shared]) ?_ fun t place => ?_
  · exact idle_waiters sound stepped noTurn nofun fun t waits => (waits_at_barrier sound waits).2
  · rcases place with ⟨stage, there, -⟩ | ⟨stage, here, -⟩
    · rw [there, (spots t stage).mp there]
    · rw [here, (spots t stage).mpr here]

/-- **A turn in which the wrapper returns.** -/
theorem barrierInv_leave (inv : BarrierInv n barrier r log)
    (sound : Sound r.core r.spot) (here : r.spot tid = .inside stage)
    (took : Took o r tid stage r') (isBarrier : stage.atBarrier barrier = true) :
    BarrierInv n barrier r' (log.leave tid (r.turnOf o tid stage).2.ret) := by
  have other : stage.object ≠ some (.barrier barrier) := by
    intro isObject
    cases stage with
    | barrierWoken b => cases isObject
    | barrierLast b => cases isObject
    | _ => cases isBarrier
  have atBarrier : AtBarrier barrier (r.spot tid) := ⟨stage, here, isBarrier⟩
  obtain ⟨isCall, fresh⟩ := inv.pending tid atBarrier
  have others : ∀ t, AtBarrier barrier (r'.spot t) → t ≠ tid := by
    rintro t there rfl
    exact away_of_took took other there
  -- its group has arrived, and it returns what its place in the group says
  have leaves : log.call tid < log.arrived.length / n * n ∧
      (r.turnOf o tid stage).2.ret = groupRet n (log.call tid) := by
    cases stage with
    | barrierWoken b =>
      cases eq_of_beq isBarrier
      obtain ⟨notLast, place⟩ := inv.woken tid here
      exact ⟨place.resolve_left took.ready.1, (if_neg notLast).symm⟩
    | barrierLast b =>
      cases eq_of_beq isBarrier
      obtain ⟨isLast, complete⟩ := inv.last tid here
      exact ⟨complete, (if_pos isLast).symm⟩
    | _ => cases isBarrier
  have counter : r'.shared.barriers barrier = r.shared.barriers barrier := by
    rw [took.shared]
    exact turn_barriers other
  have waiters := waiters_elsewhere sound took other
  refine ⟨counter.trans inv.counter, waiters.trans inv.waiters, fun t there => ?_, fun t there => ?_,
    fun t there => ?_, inv.latest, inv.apart, fun call member => ?_, ?_, fun i t isArrival => ?_⟩
  · have other := others t there
    rw [took.spots t other] at there
    obtain ⟨isOwn, notReturned⟩ := inv.pending t there
    refine ⟨isOwn, fun member => ?_⟩
    rcases List.mem_cons.mp member with same | before
    · have sameCall : log.call t = log.call tid := same
      rw [sameCall, isCall] at isOwn
      exact other (Option.some.inj isOwn).symm
    · exact notReturned before
  · rw [took.spots t (others t ⟨_, there, beq_self_eq_true _⟩)] at there
    exact inv.last t there
  · have other := others t ⟨_, there, beq_self_eq_true _⟩
    rw [took.spots t other] at there
    obtain ⟨notLast, place⟩ := inv.woken t there
    exact ⟨notLast, place.imp_left (stays_at_barrier sound waiters there)⟩
  · rcases List.mem_cons.mp member with rfl | before
    · exact leaves
    · exact inv.returned call before
  · exact List.nodup_cons.mpr ⟨fresh, inv.once⟩
  · rcases inv.kept i t isArrival with returned | ⟨isOwn, place⟩
    · exact Or.inl (List.mem_cons_of_mem _ returned)
    · by_cases same : t = tid
      · exact Or.inl (List.mem_cons.mpr (Or.inl (by rw [← isOwn, same])))
      · exact Or.inr ⟨isOwn, (took.spots t same).symm ▸ place⟩

/-! ### Arrivals -/

section Arrive

variable {k : Nat}

/-- `pthreadBarrierWait` of the thread that makes the barrier full. -/
theorem barrierWait_full {σ : Type} {S : Serializer σ} {e : Env σ}
    (isBarrier : e.shared.barriers barrier = some ⟨n, k⟩) (full : n = k + 1) :
    barrierWait S e barrier =
      (⟨S.signal (S.incTurnCount e.sched) (.barrier barrier) true, { e.shared with
        barriers := Function.update e.shared.barriers barrier (some ⟨n, 0⟩) }, e.self⟩,
        .bounce (.barrierLast barrier)) := by
  simp only [barrierWait, Env.incTurnCount, isBarrier]
  rw [if_pos full]
  rfl

/-- `pthreadBarrierWait` of a thread that does not. -/
theorem barrierWait_open {σ : Type} {S : Serializer σ} {e : Env σ}
    (isBarrier : e.shared.barriers barrier = some ⟨n, k⟩) (notFull : n ≠ k + 1) :
    barrierWait S e barrier =
      (⟨S.incTurnCount e.sched, { e.shared with
        barriers := Function.update e.shared.barriers barrier (some ⟨n, k + 1⟩) }, e.self⟩,
        .wait (some (.barrier barrier)) forever (.barrierWoken barrier)) := by
  simp only [barrierWait, Env.incTurnCount, isBarrier]
  rw [if_neg notFull]

/-- The turn of the thread that makes the barrier full. -/
theorem arrive_full (isBarrier : r.shared.barriers barrier = some ⟨n, k⟩) (full : n = k + 1)
    (nodup : r.core.waitq.Nodup) (took : Took o r tid (.called (.barrierWait barrier)) r') :
    r'.shared.barriers barrier = some ⟨n, 0⟩ ∧ r'.core.waiters (.barrier barrier) = [] ∧
      r'.spot tid = .inside (.barrierLast barrier) := by
  have turn : r.turnOf o tid (.called (.barrierWait barrier)) = _ :=
    @barrierWait_full n barrier k _ (Core.serializer o.wakeamapPlus) (r.env tid) isBarrier full
  have gave := took.gave
  rw [turn] at gave
  cases gave
  refine ⟨Function.update_self _ _ _, ?_, put_spot_self⟩
  exact waiters_signal_all (Core.Turned.refl none nodup).incTurnCount.nodup _

/-- The turn of a thread that does not. -/
theorem arrive_open (isBarrier : r.shared.barriers barrier = some ⟨n, k⟩) (notFull : n ≠ k + 1)
    (sound : Sound r.core r.spot) (took : Took o r tid (.called (.barrierWait barrier)) r') :
    r'.shared.barriers barrier = some ⟨n, k + 1⟩ ∧
      r'.core.waiters (.barrier barrier) = r.core.waiters (.barrier barrier) ++ [tid] ∧
      r'.spot tid = .inside (.barrierWoken barrier) ∧ tid ∈ r'.core.waitq := by
  have turn : r.turnOf o tid (.called (.barrierWait barrier)) = _ :=
    @barrierWait_open n barrier k _ (Core.serializer o.wakeamapPlus) (r.env tid) isBarrier notFull
  have gave := took.gave
  rw [turn] at gave
  cases gave
  have ops := (Core.Turned.refl none sound.nodup).incTurnCount.incTurnCount
  have free : tid ∉ r.core.incTurnCount.incTurnCount.waitq := fun inside =>
    took.ready.1 (ops.kept.subset inside)
  refine ⟨Function.update_self _ _ _, ?_, put_spot_self, mem_enqueue.mpr (Or.inr rfl)⟩
  refine (waiters_enqueue free forever).trans ?_
  rw [if_pos rfl]
  refine congrArg (· ++ [tid]) (waiters_turned sound.nodup ops fun t waits => ?_)
  exact stays_of_patient ops nofun waits (waits_at_barrier sound waits).2

theorem concat_getElem? {l : List Tid} {i : Nat} {t : Tid} :
    (l ++ [tid])[i]? = some t ↔ l[i]? = some t ∨ (i = l.length ∧ t = tid) := by
  rw [List.getElem?_append]
  split
  · rename_i below
    exact ⟨Or.inl, fun place => place.resolve_right fun last => by omega⟩
  · rename_i above
    have none : l[i]? = none := List.getElem?_eq_none (Nat.not_lt.mp above)
    rw [none, List.getElem?_singleton]
    constructor
    · intro isLast
      split at isLast
      · exact Or.inr ⟨by omega, (Option.some.inj isLast).symm⟩
      · cases isLast
    · rintro (never | ⟨rfl, rfl⟩)
      · cases never
      · rw [if_pos (Nat.sub_self _)]

/-- The thread that arrives is not in the group that is waiting. -/
theorem not_in_open_group (inv : BarrierInv n barrier r log) (free : tid ∉ r.core.waitq) {i : Nat}
    (isArrival : log.arrived[i]? = some tid) : i < log.arrived.length / n * n := by
  by_contra late
  have waits : tid ∈ r.core.waiters (.barrier barrier) := by
    rw [inv.waiters]
    refine @List.mem_of_getElem? _ _ (i - log.arrived.length / n * n) _ ?_
    rw [List.getElem?_drop]
    rwa [Nat.add_sub_cancel' (Nat.not_lt.mp late)]
  exact free (mem_waiters.mp waits).1

/-- The log after an arrival, when the counter, the wait queue and the thread agree with it. -/
theorem BarrierInv.arrive (positive : 0 < n) (inv : BarrierInv n barrier r log)
    (free : tid ∉ r.core.waitq) (outside : r.spot tid = .outside)
    (spots : ∀ t, t ≠ tid → r'.spot t = r.spot t)
    (counter : r'.shared.barriers barrier = some ⟨n, (log.arrived.length + 1) % n⟩)
    (waiters : r'.core.waiters (.barrier barrier) =
      (log.arrived ++ [tid]).drop ((log.arrived.length + 1) / n * n))
    (own : (r'.spot tid = .inside (.barrierLast barrier) ∧ log.arrived.length % n = n - 1 ∧
        log.arrived.length < (log.arrived.length + 1) / n * n) ∨
      (r'.spot tid = .inside (.barrierWoken barrier) ∧ log.arrived.length % n ≠ n - 1 ∧
        tid ∈ r'.core.waitq))
    (stays : ∀ t, r.spot t = .inside (.barrierWoken barrier) → t ∈ r.core.waitq →
      t ∈ r'.core.waitq ∨ log.call t < (log.arrived.length + 1) / n * n) :
    BarrierInv n barrier r' (log.arrive tid) := by
  have length : (log.arrive tid).arrived.length = log.arrived.length + 1 := by
    show (log.arrived ++ [tid]).length = _
    rw [List.length_append]
    rfl
  have more : log.arrived.length / n * n ≤ (log.arrived.length + 1) / n * n :=
    groups_mono (Nat.le_succ _)
  have callSelf : (log.arrive tid).call tid = log.arrived.length := Function.update_self _ _ _
  have callOther : ∀ t, t ≠ tid → (log.arrive tid).call t = log.call t := fun t other =>
    Function.update_of_ne other _ _
  have atBarrier : AtBarrier barrier (r'.spot tid) := by
    rcases own with ⟨there, -⟩ | ⟨there, -⟩
    · exact ⟨_, there, beq_self_eq_true _⟩
    · exact ⟨_, there, beq_self_eq_true _⟩
  refine ⟨by rw [length]; exact counter, by rw [length]; exact waiters, fun t there => ?_,
    fun t there => ?_, fun t there => ?_, fun i t isArrival => ?_,
    fun i j t before first second => ?_, fun call member => ?_, inv.once, fun i t isArrival => ?_⟩
  · by_cases same : t = tid
    · subst same
      rw [callSelf]
      refine ⟨concat_getElem?.mpr (Or.inr ⟨rfl, rfl⟩), fun member => ?_⟩
      obtain ⟨call, returned, isCall⟩ := List.mem_map.mp member
      have below := (inv.returned call returned).1
      have groups := groups_le n log.arrived.length
      omega
    · rw [spots t same] at there
      rw [callOther t same]
      obtain ⟨isOwn, notReturned⟩ := inv.pending t there
      exact ⟨concat_getElem?.mpr (Or.inl isOwn), notReturned⟩
  · rw [length]
    by_cases same : t = tid
    · subst same
      rw [callSelf]
      rcases own with ⟨-, isLast⟩ | ⟨elsewhere, -⟩
      · exact isLast
      · rw [there] at elsewhere
        cases elsewhere
    · rw [spots t same] at there
      rw [callOther t same]
      exact ⟨(inv.last t there).1, (inv.last t there).2.trans_le more⟩
  · rw [length]
    by_cases same : t = tid
    · subst same
      rw [callSelf]
      rcases own with ⟨elsewhere, -⟩ | ⟨-, notLast, inside⟩
      · rw [there] at elsewhere
        cases elsewhere
      · exact ⟨notLast, Or.inl inside⟩
    · rw [spots t same] at there
      rw [callOther t same]
      obtain ⟨notLast, place⟩ := inv.woken t there
      refine ⟨notLast, ?_⟩
      rcases place with inside | complete
      · exact stays t there inside
      · exact Or.inr (complete.trans_le more)
  · rcases concat_getElem?.mp isArrival with before | ⟨rfl, rfl⟩
    · by_cases same : t = tid
      · subst same
        rw [callSelf]
        exact (List.getElem?_eq_some_iff.mp before).1.le
      · rw [callOther t same]
        exact inv.latest i t before
    · rw [callSelf]
  · rcases concat_getElem?.mp first with early | ⟨isLast, -⟩
    · rcases concat_getElem?.mp second with late | ⟨rfl, rfl⟩
      · exact inv.apart i j t before early late
      · exact group_lt_of_lt positive (not_in_open_group inv free early)
    · have bound := (List.getElem?_eq_some_iff.mp second).1
      rw [length] at bound
      omega
  · rw [length]
    exact ⟨(inv.returned call member).1.trans_le more, (inv.returned call member).2⟩
  · rcases concat_getElem?.mp isArrival with before | ⟨rfl, rfl⟩
    · refine (inv.kept i t before).imp_right fun ⟨isOwn, place⟩ => ?_
      have other : t ≠ tid := by
        rintro rfl
        obtain ⟨stage, here, -⟩ := place
        rw [outside] at here
        cases here
      exact ⟨(callOther t other).trans isOwn, (spots t other).symm ▸ place⟩
    · exact Or.inr ⟨callSelf, atBarrier⟩

/-- **A turn in which a thread arrives.** -/
theorem barrierInv_arrive (positive : 0 < n) (inv : BarrierInv n barrier r log)
    (sound : Sound r.core r.spot) (outside : r.spot tid = .outside)
    (took : Took o r tid (.called (.barrierWait barrier)) r') :
    BarrierInv n barrier r' (log.arrive tid) := by
  have free := took.ready.1
  have rest := Nat.mod_lt log.arrived.length positive
  by_cases full : n = log.arrived.length % n + 1
  · obtain ⟨counter, waiters, there⟩ := arrive_full inv.counter full sound.nodup took
    obtain ⟨groups, none⟩ := group_full full
    have all : (log.arrived.length + 1) / n * n = log.arrived.length + 1 := by
      have divided := Nat.div_add_mod' (log.arrived.length + 1) n
      omega
    refine inv.arrive positive free outside took.spots (none ▸ counter) ?_ (Or.inl ⟨there, ?_, ?_⟩)
      fun t here _ => Or.inr ?_
    · rw [waiters, all]
      exact (List.drop_eq_nil_of_le (by rw [List.length_append]; exact Nat.le_refl _)).symm
    · omega
    · omega
    · have isCall := (inv.pending t ⟨_, here, beq_self_eq_true _⟩).1
      have below := (List.getElem?_eq_some_iff.mp isCall).1
      omega
  · obtain ⟨counter, waiters, there, inside⟩ := arrive_open inv.counter full sound took
    obtain ⟨groups, more⟩ := group_open positive full
    refine inv.arrive positive free outside took.spots (more ▸ counter) ?_
      (Or.inr ⟨there, by omega, inside⟩) fun t here waiting => Or.inl ?_
    · rw [waiters, inv.waiters, groups, List.drop_append_of_le_length (groups_le _ _)]
    · have parked := sound.parked t waiting
      rw [here] at parked
      have waits : t ∈ r'.core.waiters (.barrier barrier) := by
        rw [waiters]
        exact List.mem_append_left _ (mem_waiters.mpr ⟨waiting, parked.2.1⟩)
      exact (mem_waiters.mp waits).1

end Arrive

/-! ### Runs -/

/-- **Every step keeps the barrier and the log in agreement.** -/
theorem barrierInv_step {label : Tid × Move} (positive : 0 < n) (inv : BarrierInv n barrier r log)
    (sound : Sound r.core r.spot) (entered : Entered r) (keeps : KeepsBarrier barrier r label)
    (stepped : r.step o label = some r') :
    BarrierInv n barrier r' (r.logStep o barrier log label) := by
  obtain ⟨tid, move⟩ := label
  unfold logStep
  cases isStage : r.stageOf tid move with
  | none => exact barrierInv_idle inv sound stepped isStage
  | some stage =>
    have took := took_of_step sound.nodup stepped isStage
    show BarrierInv n barrier r' (log.turn barrier tid stage (r.turnOf o tid stage).2)
    unfold BarrierLog.turn
    by_cases arrives : stage = .called (.barrierWait barrier)
    · rw [if_pos arrives]
      subst arrives
      exact barrierInv_arrive positive inv sound (outside_of_called entered isStage) took
    · rw [if_neg arrives]
      cases isBarrier : stage.atBarrier barrier with
      | true =>
        refine barrierInv_leave inv sound (inside_of_stageOf isStage fun call isCall => ?_) took
          isBarrier
        rw [isCall] at isBarrier
        cases isBarrier
      | false =>
        refine barrierInv_other inv sound isStage took (fun isObject => ?_) isBarrier
        have notReset := keeps stage isStage
        rcases barrier_of_object isObject with isWait | resets
        · exact arrives isWait
        · rw [resets] at notReset
          cases notReset

/-- The barrier has been initialised for `n` threads, and no thread is in `pthreadBarrierWait`. -/
structure FreshBarrier (n barrier : Nat) (r : Recorder) : Prop where
  counter : r.shared.barriers barrier = some { count := n }
  away : ∀ t, ¬ AtBarrier barrier (r.spot t)

theorem barrierInv_fresh (sound : Sound r.core r.spot) (fresh : FreshBarrier n barrier r) :
    BarrierInv n barrier r {} := by
  refine ⟨?_, ?_, fun t there => absurd there (fresh.away t), fun t there => ?_, fun t there => ?_,
    fun i t isArrival => (nomatch isArrival), fun i j t _ isArrival => (nomatch isArrival),
    fun call member => (nomatch member), List.nodup_nil, fun i t isArrival => (nomatch isArrival)⟩
  · rw [fresh.counter]
    show _ = some (⟨n, 0 % n⟩ : Barrier)
    rw [Nat.zero_mod]
  · show _ = ([] : List Tid).drop _
    rw [List.drop_nil]
    refine List.eq_nil_iff_forall_not_mem.mpr fun t waits => ?_
    exact fresh.away t ⟨_, (waits_at_barrier sound waits).1, beq_self_eq_true _⟩
  · exact absurd ⟨_, there, beq_self_eq_true _⟩ (fresh.away t)
  · exact absurd ⟨_, there, beq_self_eq_true _⟩ (fresh.away t)

/-- **So does every run.** -/
theorem barrierInv_run {labels : List (Tid × Move)} {last : Recorder} (positive : 0 < n)
    (inv : BarrierInv n barrier r log) (sound : Sound r.core r.spot) (entered : Entered r)
    (keeps : Along (step o) (KeepsBarrier barrier) r labels)
    (ran : exec (step o) r labels = some last) :
    BarrierInv n barrier last (barrierLog o barrier r log labels) := by
  induction labels generalizing r log with
  | nil =>
    cases ran
    exact inv
  | cons label labels ih =>
    obtain ⟨next, stepped, rest⟩ := exec_cons ran
    have later := ih (barrierInv_step positive inv sound entered keeps.1 stepped)
      (sound_step sound stepped) (entered_step sound.nodup entered stepped)
      (keeps.2 next stepped) rest
    show BarrierInv n barrier last
      (match r.step o label with
        | some next => barrierLog o barrier next (r.logStep o barrier log label) labels
        | none => log)
    rw [stepped]
    exact later

/-- A thread of a complete group does not wait any more. -/
theorem not_waiting_of_complete (inv : BarrierInv n barrier r log) (sound : Sound r.core r.spot)
    {t : Tid} (there : AtBarrier barrier (r.spot t))
    (complete : log.call t < log.arrived.length / n * n) : t ∉ r.core.waitq := by
  intro inside
  obtain ⟨stage, here, atBarrier⟩ := there
  have parked := sound.parked t inside
  rw [here] at parked
  have waits : t ∈ r.core.waiters (.barrier barrier) := by
    cases stage with
    | barrierWoken b =>
      cases eq_of_beq atBarrier
      exact mem_waiters.mpr ⟨inside, parked.2.1⟩
    | barrierLast b => cases parked.1
    | _ => cases atBarrier
  rw [inv.waiters] at waits
  obtain ⟨i, isArrival⟩ := List.mem_iff_getElem?.mp waits
  rw [List.getElem?_drop] at isArrival
  have latest := inv.latest _ t isArrival
  omega

/-- What a thread at the barrier returns with its next turn. -/
theorem returns_of_atBarrier (inv : BarrierInv n barrier r log) {t : Tid} {stage : Stage}
    (here : r.spot t = .inside stage) (atBarrier : stage.atBarrier barrier = true) :
    (r.turnOf o t stage).2 = .done false { ret := groupRet n (log.call t) } := by
  cases stage with
  | barrierWoken b =>
    cases eq_of_beq atBarrier
    have ret : groupRet n (log.call t) = 0 := if_neg (inv.woken t here).1
    rw [ret]
    rfl
  | barrierLast b =>
    cases eq_of_beq atBarrier
    have ret : groupRet n (log.call t) = barrierSerialThread := if_pos (inv.last t here).1
    rw [ret]
    rfl
  | _ => cases atBarrier

/-- **Barriers work group by group**, in any order of turns. The calls on a barrier for `n` threads,
numbered as they arrive, form the groups `0 .. n - 1`, `n .. 2 n - 1` and so on:
* between turns `narrived` is the number of the threads that wait on the barrier, and less than `n`;
* a call that has returned belongs to a group that has arrived, and only the last call of the group
  returned `PTHREAD_BARRIER_SERIAL_THREAD`, the others `0`; no call returns twice;
* a call of a group that has arrived has returned, or its thread does not wait any more and returns that
  value with its next turn;
* two calls of one thread are never in the same group. -/
theorem barrier_groups (o : Options) (mainTh : PthreadT) (shared : Shared)
    (before : List (Tid × Move)) (start : Recorder)
    (began : exec (step o) (init o mainTh shared) before = some start) (n barrier : Nat)
    (positive : 1 ≤ n) (fresh : FreshBarrier n barrier start) (labels : List (Tid × Move))
    (keeps : Along (step o) (KeepsBarrier barrier) start labels) (r : Recorder)
    (ran : exec (step o) start labels = some r) (log : BarrierLog)
    (isLog : log = barrierLog o barrier start {} labels) :
    (∃ narrived, r.shared.barriers barrier = some ⟨n, narrived⟩ ∧ narrived < n ∧
      narrived = (r.core.waiters (.barrier barrier)).length) ∧
    (∀ i ret, (i, ret) ∈ log.returned → (i / n + 1) * n ≤ log.arrived.length ∧
      ret = groupRet n i) ∧
    (log.returned.map Prod.fst).Nodup ∧
    (∀ i, (i / n + 1) * n ≤ log.arrived.length → i ∈ log.returned.map Prod.fst ∨
      ∃ t stage, log.arrived[i]? = some t ∧ r.spot t = .inside stage ∧ t ∉ r.core.waitq ∧
        (r.turnOf o t stage).2 = .done false { ret := groupRet n i }) ∧
    ∀ i j t, i < j → log.arrived[i]? = some t → log.arrived[j]? = some t → i / n < j / n := by
  obtain ⟨sound, entered⟩ := reached_run began
  have inv := barrierInv_run positive (barrierInv_fresh sound fresh) sound entered keeps ran
  rw [← isLog] at inv
  have soundNow : Sound r.core r.spot :=
    exec_invariant (fun s => Sound s.core s.spot)
      (fun s label next here _ stepped => sound_step here stepped) sound keeps ran
  refine ⟨⟨_, inv.counter, Nat.mod_lt _ positive, ?_⟩, fun i ret member => ?_, inv.once,
    fun i complete => ?_, inv.apart⟩
  · rw [inv.waiters, List.length_drop, ← Nat.mod_eq_sub_div_mul]
  · obtain ⟨complete, isRet⟩ := inv.returned (i, ret) member
    exact ⟨(group_complete_iff positive).mp complete, isRet⟩
  · have below := (group_complete_iff positive).mpr complete
    have within : i < log.arrived.length := below.trans_le (groups_le _ _)
    rcases inv.kept i _ (List.getElem?_eq_getElem within) with returned | ⟨isCall, place⟩
    · exact Or.inl returned
    · have free := not_waiting_of_complete inv soundNow place (isCall.symm ▸ below)
      obtain ⟨stage, here, atBarrier⟩ := place
      have returns := returns_of_atBarrier (o := o) inv here atBarrier
      rw [isCall] at returns
      exact Or.inr ⟨_, stage, List.getElem?_eq_getElem within, here, free, returns⟩

/-- Thread `2` arrives at the barrier `3`, for two threads, and the main thread makes it full; it
returns and arrives again before thread `2` has resumed. -/
def reentered : List (Tid × Move) :=
  quick 0 (.createIdle 101) ++ quick 0 (.create 102 3 0) ++
  [(2, .call (.barrierWait 3)), (0, .call (.barrierWait 3)), (0, .resume), (0, .finish),
    (0, .call (.barrierWait 3))]

/-- The second call of the main thread waits, in the second group; thread `2` of the first one can
return. -/
theorem barrier_groups_reentered :
    ∃ r, exec (step {}) (init {} 100 { barriers := fun _ => some { count := 2 } }) reentered = some r ∧
      r.core.waiters (.barrier 3) = [0] ∧
      ((0 / 2 + 1) * 2 ≤ 3 → 0 ∈ [1] ∨ ∃ t stage, [2, 0, 0][0]? = some t ∧
        r.spot t = .inside stage ∧ t ∉ r.core.waitq ∧
        (r.turnOf {} t stage).2 = .done false { ret := groupRet 2 0 }) := by
  have found : (exec (step {}) (init {} 100 { barriers := fun _ => some { count := 2 } })
      reentered).any (fun r => decide (r.core.waiters (.barrier 3) = [0])) = true := by
    decide +kernel
  obtain ⟨r, ran, here⟩ := exec_of_any found
  have keeps : Along (step {}) (KeepsBarrier 3)
      (init {} 100 { barriers := fun _ => some { count := 2 } }) reentered := by decide +kernel
  have arrived : (barrierLog {} 3 (init {} 100 { barriers := fun _ => some { count := 2 } }) {}
      reentered).arrived = [2, 0, 0] := by decide +kernel
  have returned : (barrierLog {} 3 (init {} 100 { barriers := fun _ => some { count := 2 } }) {}
      reentered).returned = [(1, -1)] := by decide +kernel
  have groups := barrier_groups {} 100 { barriers := fun _ => some { count := 2 } } [] _ (exec_nil _)
    2 3 (by decide) ⟨rfl, fun t there => by obtain ⟨_, there, -⟩ := there; cases there⟩ reentered
    keeps r ran _ rfl
  refine ⟨r, ran, of_decide_eq_true here, fun complete => ?_⟩
  have released := groups.2.2.2.1 0
  rw [arrived, returned] at released
  exact released complete

end Recorder

end MinSmt
