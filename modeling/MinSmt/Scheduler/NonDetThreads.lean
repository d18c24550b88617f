/-
**The set of the threads outside the run queue** (`include/tern/runtime/non-det-thread-set.h`).

The turn holder puts a thread into `non_det_thds` when it takes it off the run queue for an external
call, and takes it out when it puts it back.

* `NonDetSet.Ordered n now` — the list and the map have the same tids, once each; the clocks go up along the
  list and not beyond `now`; no call of `insert` or `erase` was for a wrong tid.
* `Sched.Mirrors late s` — the set has the removed threads, and those in `late` that are to be removed.
* `Returns` — a removed thread is put back: all that `check_wakeup` and `checkNonDetBound` do to the set.
* `KeepsNonDet` — the operations that leave the set alone.
* `Mirrors.step` — every step keeps the set a mirror; `block` and `nextRunnable` only add threads that
  were in a run queue.
* **`non_det_set_mirrors`** — so it is one in every state of a run, with one run queue.
-/

import Mathlib.Logic.Relation
import MinSmt.Scheduler.Conservation
import MinSmt.Scheduler.Exclusion

namespace MinSmt

open MinSmt.Library

/-! ### The set -/

/-- **The set is in order** at a turn count. -/
structure NonDetSet.Ordered (n : NonDetSet) (now : Nat) : Prop where
  nodup : n.tids.Nodup
  keysNodup : n.keys.Nodup
  keys : ∀ t, t ∈ n.keys ↔ t ∈ n.tids
  sorted : n.tids.Pairwise fun t u => n.clock t ≤ n.clock u
  past : ∀ t ∈ n.tids, n.clock t ≤ now
  proper : n.misused = false

namespace NonDetSet.Ordered

variable {n : NonDetSet} {now now' : Nat} {tid : Tid}

theorem later (ordered : n.Ordered now) (le : now ≤ now') : n.Ordered now' :=
  { ordered with past := fun t member => (ordered.past t member).trans le }

/-- The first thread has the smallest clock. -/
theorem first_le (ordered : n.Ordered now) {first : Tid} (isFirst : n.tids.head? = some first) :
    ∀ t ∈ n.tids, n.clock first ≤ n.clock t := by
  obtain ⟨rest, isCons⟩ := List.head?_eq_some_iff.mp isFirst
  have sorted := ordered.sorted
  rw [isCons] at sorted ⊢
  exact fun t member => (List.mem_cons.mp member).elim (fun same => same ▸ Nat.le_refl _)
    ((List.pairwise_cons.mp sorted).1 t)

/-- `insert` of a thread that is not there. -/
theorem insert (ordered : n.Ordered now) (fresh : tid ∉ n.tids) : (n.insert tid now).Ordered now := by
  have noKey : tid ∉ n.keys := fun member => fresh ((ordered.keys tid).mp member)
  have apart : ∀ t ∈ n.tids, t ≠ tid := fun t member same => fresh (same ▸ member)
  have others : ∀ t ∈ n.tids, Function.update n.clock tid now t = n.clock t := fun t member =>
    Function.update_of_ne (apart t member) _ _
  refine ⟨?_, List.Nodup.insert ordered.keysNodup, fun t => ?_, ?_, fun t member => ?_, ?_⟩
  · simpa [NonDetSet.insert, List.nodup_append] using ⟨ordered.nodup, apart⟩
  · simp [NonDetSet.insert, ordered.keys t, or_comm]
  · refine List.pairwise_append.mpr ⟨?_, List.pairwise_singleton _ _, fun t member u isTid => ?_⟩
    · refine ordered.sorted.imp_of_mem fun {t u} first second le => ?_
      simpa only [NonDetSet.insert, others t first, others u second] using le
    · rw [List.mem_singleton.mp isTid]
      simpa only [NonDetSet.insert, others t member, Function.update_self] using ordered.past t member
  · rcases List.mem_append.mp member with old | isTid
    · simpa only [NonDetSet.insert, others t old] using ordered.past t old
    · simp [NonDetSet.insert, List.mem_singleton.mp isTid]
  · simp [NonDetSet.insert, ordered.proper, fresh]

/-- `erase` of a thread that is there. -/
theorem erase (ordered : n.Ordered now) (member : tid ∈ n.tids) : (n.erase tid).Ordered now := by
  have isErased : n.erase tid = { n with
      tids := n.tids.erase tid, keys := n.keys.erase tid, clock := Function.update n.clock tid 0 } :=
    if_pos member
  have inside : ∀ t, t ∈ n.tids.erase tid ↔ t ≠ tid ∧ t ∈ n.tids := fun t => ordered.nodup.mem_erase_iff
  have others : ∀ t ∈ n.tids.erase tid, Function.update n.clock tid 0 t = n.clock t := fun t old =>
    Function.update_of_ne ((inside t).mp old).1 _ _
  rw [isErased]
  refine ⟨ordered.nodup.erase tid, ordered.keysNodup.erase tid, fun t => ?_, ?_, fun t old => ?_, ordered.proper⟩
  · rw [ordered.keysNodup.mem_erase_iff, ordered.nodup.mem_erase_iff, ordered.keys t]
  · refine (ordered.sorted.sublist List.erase_sublist).imp_of_mem fun {t u} first second le => ?_
    simpa only [others t first, others u second] using le
  · simpa only [others t old] using ordered.past t ((inside t).mp old).2

/-- `get_clock` of a thread that is there makes no entry. -/
theorem readClock_eq (ordered : n.Ordered now) (member : tid ∈ n.tids) : n.readClock tid = n := by
  unfold readClock
  rw [List.insert_of_mem ((ordered.keys tid).mpr member)]

end NonDetSet.Ordered

namespace Sched

/-- **The set has the removed threads**, and those that are to be removed. -/
structure Mirrors (late : List Tid) (s : Sched) : Prop where
  ordered : s.nonDetThds.Ordered s.turnCount
  members : ∀ t, s.nonDetThds.tids.count t = s.removed.count t + late.count t

/-- The operation leaves the set, the removed threads, the side set and the turn count alone. -/
structure KeepsNonDet (s s' : Sched) : Prop where
  set : s'.nonDetThds = s.nonDetThds
  removed : s'.removed = s.removed
  turnCount : s'.turnCount = s.turnCount
  wakeups : s'.interProWakeupTids = s.interProWakeupTids

/-- A removed thread is put back. -/
def Returns (s s' : Sched) : Prop := ∃ tid ∈ s.removed, s' = (s.returnToRunq tid).eraseNonDet tid

variable {o : Options} {s s' s'' : Sched} {late runq hp : List Tid} {tid : Tid}

/-! ### What leaves the set alone -/

namespace KeepsNonDet

theorem refl (s : Sched) : KeepsNonDet s s := ⟨rfl, rfl, rfl, rfl⟩

theorem trans (first : KeepsNonDet s s') (second : KeepsNonDet s' s'') : KeepsNonDet s s'' :=
  ⟨second.set.trans first.set, second.removed.trans first.removed, second.turnCount.trans first.turnCount,
    second.wakeups.trans first.wakeups⟩

theorem foldl {f : Sched → Tid → Sched} (each : ∀ s t, KeepsNonDet s (f s t)) (tids : List Tid) (s : Sched) :
    KeepsNonDet s (tids.foldl f s) := by
  induction tids generalizing s with
  | nil => exact refl s
  | cons t tids ih => exact (each s t).trans (ih (f s t))

theorem makeRunnable (s : Sched) (t : Tid) : KeepsNonDet s (s.makeRunnable o t) := by
  unfold Sched.makeRunnable
  split
  · split <;> exact ⟨rfl, rfl, rfl, rfl⟩
  · exact ⟨rfl, rfl, rfl, rfl⟩

theorem signal (chan : Chan) (all : Bool) : KeepsNonDet s (s.signal o chan all) := by
  have woken : KeepsNonDet s { s with toCore := (s.toCore.signal chan all).1 } := ⟨rfl, rfl, rfl, rfl⟩
  exact woken.trans (foldl makeRunnable _ _)

/-- Firing the timeouts of the counted turn. -/
theorem fire : KeepsNonDet { s with toCore := s.toCore.tick } (s.tickAndFire o) := by
  have woken : KeepsNonDet { s with toCore := s.toCore.tick }
      { s with toCore := s.toCore.tick.fireTimeouts.1 } := ⟨rfl, rfl, rfl, rfl⟩
  exact woken.trans (foldl makeRunnable _ _)

theorem wakeUpIdleThread : KeepsNonDet s (s.wakeUpIdleThread o) := by
  have woken : KeepsNonDet s { s with toCore := s.toCore.wakeIdle.1 } := ⟨rfl, rfl, rfl, rfl⟩
  refine woken.trans (foldl (fun s t => ?_) _ _)
  split <;> exact ⟨rfl, rfl, rfl, rfl⟩

theorem popRunq (popped : s.popRunq = some s') : KeepsNonDet s s' := by
  obtain ⟨_, _, rfl⟩ := Option.map_eq_some_iff.mp popped
  exact ⟨rfl, rfl, rfl, rfl⟩

theorem popHpRunq (popped : s.popHpRunq = some s') : KeepsNonDet s s' := by
  obtain ⟨_, _, rfl⟩ := Option.map_eq_some_iff.mp popped
  exact ⟨rfl, rfl, rfl, rfl⟩

theorem popOwn (popped : s.popOwn tid = some s') : KeepsNonDet s s' := by
  unfold Sched.popOwn at popped
  split at popped
  · obtain ⟨s₁, fromHp, rfl⟩ := Option.map_eq_some_iff.mp popped
    exact (popHpRunq fromHp).trans ⟨rfl, rfl, rfl, rfl⟩
  · exact popRunq popped

theorem nextPop (popped : s.nextPop o tid = some s') : KeepsNonDet s s' := by
  unfold Sched.nextPop at popped
  split at popped
  · have status : ∀ status, KeepsNonDet s (s.setStatus tid status) := fun _ => ⟨rfl, rfl, rfl, rfl⟩
    exact (status _).trans (popOwn popped)
  · cases popped
    exact refl s

theorem requeue {strategy : Strategy} (requeued : s.requeue tid strategy = some s') : KeepsNonDet s s' := by
  cases strategy with
  | currentThread | create =>
    cases requeued
    exact refl s
  | yield =>
    obtain ⟨s₁, popped, inserted⟩ := Option.bind_eq_some_iff.mp requeued
    obtain ⟨_, _, rfl⟩ := Option.map_eq_some_iff.mp inserted
    exact (popOwn popped).trans ⟨rfl, rfl, rfl, rfl⟩
  | default | currentRole =>
    obtain ⟨s₁, popped, rfl⟩ := Option.map_eq_some_iff.mp requeued
    exact (popOwn popped).trans ⟨rfl, rfl, rfl, rfl⟩

theorem signalJoiner : KeepsNonDet s (s.signalJoiner o tid) := by
  unfold Sched.signalJoiner
  split
  · exact signal _ _
  · exact refl s

theorem enqueue {chan : Option Chan} {timeout : Nat} {order : List Tid} :
    KeepsNonDet (s.incTurnCount o order) (s.enterWaitq o tid chan timeout order) := by
  unfold Sched.enterWaitq
  dsimp only
  split <;> exact ⟨rfl, rfl, rfl, rfl⟩

theorem create (th : PthreadT) (threadFunc : ThreadFunc) : KeepsNonDet s (s.create o th threadFunc) := by
  unfold Sched.create
  dsimp only
  split
  · split <;> exact ⟨rfl, rfl, rfl, rfl⟩
  · exact ⟨rfl, rfl, rfl, rfl⟩

theorem grantHead : KeepsNonDet s (s.grantHead tid) := by
  unfold Sched.grantHead
  split <;> exact ⟨rfl, rfl, rfl, rfl⟩

theorem take (taken : s.take o tid = some s') : KeepsNonDet s s' := by
  obtain ⟨w, -, isNext⟩ := Option.bind_eq_some_iff.mp taken
  split at isNext
  · split at isNext
    · cases isNext
    · cases isNext
      exact ⟨rfl, rfl, rfl, rfl⟩
  · cases isNext
    exact ⟨rfl, rfl, rfl, rfl⟩

end KeepsNonDet

/-! ### What changes the set -/

namespace Mirrors

theorem congr (mirrors : Mirrors late s) (set : s'.nonDetThds = s.nonDetThds) (removed : s'.removed = s.removed)
    (turnCount : s'.turnCount = s.turnCount) : Mirrors late s' := by
  refine ⟨?_, fun t => ?_⟩
  · rw [set, turnCount]
    exact mirrors.ordered
  · rw [set, removed]
    exact mirrors.members t

theorem keep (mirrors : Mirrors late s) (keeps : KeepsNonDet s s') : Mirrors late s' :=
  mirrors.congr keeps.set keeps.removed keeps.turnCount

/-- A counted turn, within the range of the counter. -/
theorem tick (mirrors : Mirrors late s) (below : s.turnCount + 1 < unsignedMod) :
    Mirrors late { s with toCore := s.toCore.tick } :=
  ⟨mirrors.ordered.later (by rw [Core.tick, Nat.mod_eq_of_lt below]; exact Nat.le_succ _), mirrors.members⟩

theorem mem_tids (mirrors : Mirrors late s) (member : tid ∈ s.removed) : tid ∈ s.nonDetThds.tids := by
  have positive := List.count_pos_iff.mpr member
  have count := mirrors.members tid
  exact List.count_pos_iff.mp (by omega)

/-- A removed thread is put back and taken out of the set. -/
theorem returned (mirrors : Mirrors late s) (member : tid ∈ s.removed) :
    Mirrors late ((s.returnToRunq tid).eraseNonDet tid) := by
  have inside := mirrors.mem_tids member
  refine ⟨mirrors.ordered.erase inside, fun t => ?_⟩
  have isErased : (s.nonDetThds.erase tid).tids = s.nonDetThds.tids.erase tid := by
    rw [NonDetSet.erase, if_pos inside]
  show (s.nonDetThds.erase tid).tids.count t = (s.removed.erase tid).count t + late.count t
  rw [isErased, List.count_erase, List.count_erase, mirrors.members t]
  by_cases same : t = tid
  · subst same
    have positive := List.count_pos_iff.mpr member
    rw [if_pos (beq_self_eq_true t)]
    omega
  · rw [if_neg (by simp [Ne.symm same])]
    rfl

theorem of_returns (mirrors : Mirrors late s) (returns : Relation.ReflTransGen Returns s s') :
    Mirrors late s' := by
  induction returns with
  | refl => exact mirrors
  | tail _ last ih =>
    obtain ⟨tid, member, rfl⟩ := last
    exact ih.returned member

/-- A thread from a run queue is put into the set before it is removed. -/
theorem enter (on : o.enforceNonDetClockBound = true) (mirrors : Mirrors [] s) (here : tid ∉ s.removed) :
    Mirrors [tid] (s.enterNonDet o tid) := by
  have fresh : tid ∉ s.nonDetThds.tids := by
    have count := mirrors.members tid
    rw [List.count_eq_zero.mpr here, List.count_nil] at count
    exact List.count_eq_zero.mp count
  have isEntered : s.enterNonDet o tid = { s with nonDetThds := s.nonDetThds.insert tid s.turnCount } :=
    if_pos on
  rw [isEntered]
  refine ⟨mirrors.ordered.insert fresh, fun t => ?_⟩
  show (s.nonDetThds.tids ++ [tid]).count t = s.removed.count t + [tid].count t
  rw [List.count_append, mirrors.members t, List.count_nil, Nat.add_zero]

/-- It is removed. -/
theorem remove (mirrors : Mirrors [tid] s) : Mirrors [] { s with removed := s.removed ++ [tid] } :=
  ⟨mirrors.ordered, fun t => by
    rw [mirrors.members t, List.count_append, List.count_nil, Nat.add_zero]⟩

theorem noteRemoved (on : o.enforceNonDetClockBound = true) (mirrors : Mirrors [] s) (here : tid ∉ s.removed) :
    Mirrors [] (s.noteRemoved o tid) := by
  have entered := (mirrors.enter on here).remove
  have same : (s.enterNonDet o tid).removed = s.removed := by
    unfold Sched.enterNonDet
    split <;> rfl
  rw [same] at entered
  exact entered

end Mirrors

/-! ### The methods of the turn holder -/

section Holder

variable (rr : 0 ≤ o.enforceTurnType)

include rr

namespace Mirrors

/-- **`checkNonDetBound`** puts the first thread back, or leaves everything as it is. -/
theorem checkNonDetBound (mirrors : Mirrors [] s) : Mirrors [] (s.checkNonDetBound o) := by
  unfold Sched.checkNonDetBound
  split
  · rename_i tid rest _ isFirst
    have inside : tid ∈ s.nonDetThds.tids := by
      rw [isFirst]
      exact List.mem_cons_self
    have member : tid ∈ s.removed := by
      have count := mirrors.members tid
      have positive := List.count_pos_iff.mpr inside
      rw [List.count_nil] at count
      exact List.count_pos_iff.mp (by omega)
    have same : s.readClock tid = s := by
      unfold Sched.readClock
      rw [mirrors.ordered.readClock_eq inside]
    dsimp only
    rw [same, if_pos rr]
    split
    · exact mirrors.returned member
    · exact mirrors
  · exact mirrors

theorem putTurn (mirrors : Mirrors [] s) {strategy : Strategy} (put : s.putTurn o tid strategy = some s') :
    Mirrors [] s' := by
  rw [Sched.putTurn, if_pos rr] at put
  obtain ⟨s₁, requeued, rfl⟩ := Option.map_eq_some_iff.mp put
  have status : KeepsNonDet s (s.setStatus tid .runnable) := ⟨rfl, rfl, rfl, rfl⟩
  exact (mirrors.keep (status.trans (KeepsNonDet.requeue requeued))).checkNonDetBound rr

theorem putTurnAtEnd (mirrors : Mirrors [] s) (put : s.putTurnAtEnd o tid = some s') : Mirrors [] s' := by
  have zombie : KeepsNonDet (s.signalJoiner o tid)
      { s.signalJoiner o tid with tm := (s.signalJoiner o tid).tm.zombify tid } := ⟨rfl, rfl, rfl, rfl⟩
  exact ((mirrors.keep (KeepsNonDet.signalJoiner.trans zombie)).checkNonDetBound rr).keep
    (KeepsNonDet.nextPop put)

end Mirrors

variable (on : o.enforceNonDetClockBound = true)

include on

/-- The loop of `check_wakeup` puts removed threads back. -/
theorem Layout.foldl_bringBack_returns (layout : Layout o late s runq hp) {order : List Tid}
    (known : ∀ t ∈ order, s.Live t ∧ t ∉ s.waitq ∧
      (t ∈ hp → (s.elems t).prev ≠ none ∨ (s.elems t).next ≠ none)) :
    Relation.ReflTransGen Returns s (order.foldl (Sched.bringBack o) s) := by
  induction order generalizing s runq with
  | nil => exact .refl
  | cons tid rest ih =>
    obtain ⟨live, outside, inHp⟩ := known tid List.mem_cons_self
    obtain ⟨more, layout', -⟩ := layout.bringBack rr live outside inHp
    have later := ih layout' (layout.bringBack_known rr known)
    have first : s.bringBack o tid = s ∨ Returns s (s.bringBack o tid) := by
      unfold Sched.bringBack
      by_cases inside : s.runq.isIn s.elems tid = true
      · exact Or.inl (if_pos inside)
      · refine Or.inr ⟨tid, layout.removed_of_not_isIn live outside inHp inside, ?_⟩
        rw [if_neg inside, if_pos rr, if_pos on]
    rw [List.foldl_cons]
    rcases first with same | returns
    · rw [same] at later ⊢
      exact later
    · exact .head returns later

/-- **`check_wakeup` puts removed threads back** and empties the side set. -/
theorem Layout.checkWakeup_returns (layout : Layout o late s runq hp) (noLone : s.NoLone) {order : List Tid}
    (perm : order.Perm s.interProWakeupTids) :
    ∃ s₁, Relation.ReflTransGen Returns s s₁ ∧ (s.checkWakeup o order).nonDetThds = s₁.nonDetThds ∧
      (s.checkWakeup o order).removed = s₁.removed ∧ (s.checkWakeup o order).turnCount = s₁.turnCount := by
  unfold Sched.checkWakeup
  split
  · refine ⟨_, layout.foldl_bringBack_returns rr on fun t inside => ?_, rfl, rfl, rfl⟩
    have back := perm.mem_iff.mp inside
    exact ⟨(layout.wakeups t back).1, (layout.wakeups t back).2, noLone.linked layout back⟩
  · exact ⟨s, .refl, rfl, rfl, rfl⟩

namespace Mirrors

theorem checkWakeup (mirrors : Mirrors late s) (layout : Layout o late s runq hp) (noLone : s.NoLone)
    {order : List Tid} (perm : order.Perm s.interProWakeupTids) : Mirrors late (s.checkWakeup o order) := by
  obtain ⟨s₁, returns, set, removed, turnCount⟩ := layout.checkWakeup_returns rr on noLone perm
  exact (mirrors.of_returns returns).congr set removed turnCount

theorem incTurnCount (mirrors : Mirrors late s) (layout : Layout o late s runq hp)
    (noLone : (s.tickAndFire o).NoLone) {order : List Tid} (perm : order.Perm s.interProWakeupTids)
    (below : s.turnCount + 1 < unsignedMod) : Mirrors late (s.incTurnCount o order) := by
  obtain ⟨_, _, _, _, layout', _⟩ := layout.tickAndFire rr
  rw [← @tickAndFire_wakeups o s] at perm
  exact ((mirrors.tick below).keep KeepsNonDet.fire).checkWakeup rr on layout' noLone perm

theorem wait (mirrors : Mirrors [] s) (layout : Layout o [] s runq hp) (noLone : (s.tickAndFire o).NoLone)
    {order : List Tid} (perm : order.Perm s.interProWakeupTids) (below : s.turnCount + 1 < unsignedMod)
    {chan : Option Chan} {timeout : Nat} (waits : s.wait o tid chan timeout order = some s') : Mirrors [] s' :=
  (mirrors.incTurnCount rr on layout noLone perm below).keep
    (KeepsNonDet.enqueue.trans (KeepsNonDet.nextPop waits))

/-- **`block`** puts its own thread in. -/
theorem block (mirrors : Mirrors [] s) (layout : Layout o [] s runq hp) (front : AtFront s runq hp tid)
    (noLone : ((s.enterNonDet o tid).tickAndFire o).NoLone) {order : List Tid}
    (perm : order.Perm s.interProWakeupTids) (below : s.turnCount + 1 < unsignedMod)
    (blocked : s.block o tid order = some s') : Mirrors [] s' := by
  have here : tid ∉ s.removed := by
    rcases front.member with inside | inside
    · exact (layout.runq_live inside).2.2
    · exact (layout.hp_live inside).2.2.1
  have sameCount : (s.enterNonDet o tid).turnCount = s.turnCount := by
    unfold Sched.enterNonDet
    split <;> rfl
  rw [← @enterNonDet_wakeups o s tid] at perm
  have counted := (mirrors.enter on here).incTurnCount rr on (layout.enterNonDet tid).1 noLone perm
    (sameCount ▸ below)
  obtain ⟨s₁, popped, rfl⟩ := Option.map_eq_some_iff.mp blocked
  rw [if_pos rr]
  exact (counted.keep (KeepsNonDet.nextPop popped)).remove

end Mirrors

end Holder

/-! ### The choice of the next thread -/

/-- What a round of `nextRunnable` leaves is a mirror. -/
def PickMirrors : Pick → Prop
  | .again s' _ => Mirrors [] s'
  | .grant s' _ => Mirrors [] s'
  | _ => True

section Picks

variable (on : o.enforceNonDetClockBound = true)

include on

theorem pickRunq_mirrors (mirrors : Mirrors [] s) (layout : Layout o [] s runq hp) (strategy : Strategy) :
    PickMirrors (s.pickRunq o strategy) := by
  unfold Sched.pickRunq
  split
  · trivial
  · rename_i head isHead
    rw [layout.linked.queue.head_eq] at isHead
    have here := (layout.runq_live (List.mem_of_head? isHead)).2.2
    split
    · split
      · rename_i popped
        have keeps := KeepsNonDet.popRunq popped
        exact (mirrors.keep keeps).noteRemoved on (keeps.removed ▸ here)
      · trivial
    · exact mirrors.keep KeepsNonDet.grantHead

theorem pickHp_mirrors (mirrors : Mirrors [] s) (layout : Layout o [] s runq hp) (strategy : Strategy) :
    PickMirrors (s.pickHp o strategy) := by
  unfold Sched.pickHp
  split
  · trivial
  · rename_i head isHead
    rw [layout.linked.second.head_eq] at isHead
    have here := (layout.hp_live (List.mem_of_head? isHead)).2.2.1
    split
    · split
      · rename_i popped
        have keeps := KeepsNonDet.popHpRunq popped
        exact (mirrors.keep keeps).noteRemoved on (keeps.removed ▸ here)
      · trivial
    · exact mirrors.keep (KeepsNonDet.grantHead.trans ⟨rfl, rfl, rfl, rfl⟩)

theorem pickRole_mirrors (mirrors : Mirrors [] s) (layout : Layout o [] s runq hp) (self : Tid)
    (strategy : Strategy) : PickMirrors (s.pickRole o self strategy) := by
  unfold Sched.pickRole
  split
  · rename_i role head isRole isHead
    rw [layout.linked.queue.head_eq] at isHead
    have here := (layout.runq_live (List.mem_of_head? isHead)).2.2
    split
    · split
      · rename_i popped
        have keeps := KeepsNonDet.popRunq popped
        exact (mirrors.keep keeps).noteRemoved on (keeps.removed ▸ here)
      · trivial
    · split
      · trivial
      · split
        · exact mirrors.keep KeepsNonDet.grantHead
        · split
          · rename_i popped
            exact mirrors.keep ((KeepsNonDet.popRunq popped).trans ⟨rfl, rfl, rfl, rfl⟩)
          · trivial
  · trivial

/-- **A round of `nextRunnable`** puts a thread in only when it takes it off its run queue. -/
theorem nextRunnable_mirrors (rr : 0 ≤ o.enforceTurnType) (mirrors : Mirrors [] s)
    (layout : Layout o [] s runq hp) (idleDone : Bool) (self : Tid) (atThreadEnd : Bool) (strategy : Strategy) :
    PickMirrors (s.nextRunnable o idleDone self atThreadEnd strategy) := by
  unfold Sched.nextRunnable
  split
  · exact pickHp_mirrors on mirrors layout _
  · split
    · exact pickRole_mirrors on mirrors layout _ _
    · split
      · split
        · trivial
        · split
          · trivial
          · split
            · trivial
            · obtain ⟨_, _, _, _, layout', _⟩ := layout.wakeUpIdleThread rr
              exact pickRunq_mirrors on (mirrors.keep KeepsNonDet.wakeUpIdleThread) layout' _
      · split
        · obtain ⟨_, _, _, _, layout', _⟩ := layout.signal rr .nonDetCV true
          exact pickRunq_mirrors on (mirrors.keep (KeepsNonDet.signal _ _)) layout' _
        · exact pickRunq_mirrors on mirrors layout _

end Picks

end Sched

/-! ### Steps -/

open Sched Sys

/-- A turn that the step counts is below `2^32`. -/
def CountsBelow (s : Sys) (label : Tid × Action) : Prop :=
  label.2.counts = true → s.sched.turnCount + 1 < unsignedMod

instance (s : Sys) (label : Tid × Action) : Decidable (CountsBelow s label) :=
  inferInstanceAs (Decidable (_ → _))

section Steps

variable {o : Options} {scope : Scope} {s s' : Sys} {runq hp : List Tid} {holder : Option Tid} {tid : Tid}

/-- A thread that enters `next`. -/
theorem mirrors_leave {sched : Option Sched} {atThreadEnd : Bool} {strategy : Strategy} {after : After}
    (mirrors : Mirrors [] s.sched) (left : ∀ sched', sched = some sched' → Mirrors [] sched') :
    Mirrors [] (s.leave tid sched atThreadEnd strategy after).sched := by
  cases sched with
  | none => exact mirrors
  | some sched => exact left sched rfl

variable (rr : o.RoundRobin) (on : o.enforceNonDetClockBound = true) (inv : Inv o scope s runq hp holder)

include rr on inv

theorem mirrors_turnStep {action : Action} (here : s.pc tid = .turn false) (safe : QueueSafe o s (tid, action))
    (below : CountsBelow s (tid, action)) (mirrors : Mirrors [] s.sched)
    (stepped : s.turnStep o tid action = some s') : Mirrors [] s'.sched := by
  have front := (inv.turn_front (by rw [here]; rfl) (by rw [here]; rfl)).1
  have nonneg := rr.nonneg
  cases action with
  | incTurnCount order =>
    obtain ⟨perm, rfl⟩ := Sys.turnStep_incTurnCount stepped
    exact mirrors.incTurnCount nonneg on inv.layout safe perm (below rfl)
  | signal chan all =>
    cases stepped
    exact mirrors.keep (KeepsNonDet.signal chan all)
  | create th threadFunc =>
    cases stepped
    exact mirrors.keep (KeepsNonDet.create th threadFunc)
  | changeRole th roleFunc =>
    cases stepped
    exact mirrors.keep ⟨rfl, rfl, rfl, rfl⟩
  | nonDetWait more =>
    cases stepped
    exact mirrors.keep ⟨rfl, rfl, rfl, rfl⟩
  | putTurn strategy =>
    cases stepped
    exact mirrors_leave mirrors fun sched' put => mirrors.putTurn nonneg put
  | endThread order =>
    obtain ⟨perm, rfl⟩ := Sys.turnStep_endThread stepped
    have counted := mirrors.incTurnCount nonneg on inv.layout safe perm (below rfl)
    exact mirrors_leave mirrors fun sched' put => counted.putTurnAtEnd nonneg put
  | wait chan timeout order =>
    obtain ⟨perm, rfl⟩ := Sys.turnStep_wait stepped
    exact mirrors_leave mirrors fun sched' waits =>
      mirrors.wait nonneg on inv.layout safe perm (below rfl) waits
  | sleep turns order =>
    obtain ⟨bounds, rfl⟩ := Sys.turnStep_sleep stepped
    exact mirrors_leave mirrors fun sched' waits =>
      mirrors.wait nonneg on inv.layout safe bounds.1 (below rfl) waits
  | block order =>
    obtain ⟨perm, rfl⟩ := Sys.turnStep_block stepped
    exact mirrors_leave mirrors fun sched' blocked =>
      mirrors.block nonneg on inv.layout front safe perm (below rfl) blocked
  | idleCondWait order =>
    obtain ⟨perm, taken⟩ := Sys.turnStep_idleCondWait stepped
    have counted := mirrors.incTurnCount nonneg on inv.layout safe perm.1 (below rfl)
    obtain ⟨-, rfl⟩ | ⟨-, rfl⟩ := taken
    · exact counted
    · exact mirrors_leave mirrors fun sched' put => counted.putTurn nonneg put
  | _ => cases stepped

theorem mirrors_leaveStep {phase : Phase} {atThreadEnd : Bool} {strategy : Strategy} {after : After}
    {action : Action} (safe : QueueSafe o s (tid, action)) (mirrors : Mirrors [] s.sched)
    (stepped : s.leaveStep o tid phase atThreadEnd strategy after action = some s') : Mirrors [] s'.sched := by
  have nonneg := rr.nonneg
  cases action with
  | checkWakeup order =>
    obtain ⟨checking, rfl⟩ := Sys.leaveStep_checkWakeup nonneg stepped
    have checked := mirrors.checkWakeup nonneg on inv.layout safe checking.2
    exact checked
  | nextRunnable =>
    obtain ⟨-, rfl⟩ := Sys.leaveStep_nextRunnable stepped
    have picks := nextRunnable_mirrors on nonneg mirrors inv.layout s.idleDone tid atThreadEnd strategy
    revert picks
    generalize s.sched.nextRunnable o s.idleDone tid atThreadEnd strategy = pick
    intro picks
    cases pick with
    | again sched strategy' => exact picks
    | grant sched next => exact picks
    | _ => exact mirrors
  | post =>
    obtain ⟨next, rfl, rfl⟩ := Sys.leaveStep_post stepped
    exact mirrors.keep ⟨rfl, rfl, rfl, rfl⟩
  | _ => cases stepped

omit inv on rr in
theorem mirrors_awayStep {action : Action} (mirrors : Mirrors [] s.sched)
    (stepped : s.awayStep tid action = some s') : Mirrors [] s'.sched := by
  cases action with
  | getTurn =>
    cases stepped
    exact mirrors
  | interProStart =>
    cases stepped
    refine mirrors.keep ?_
    unfold Sched.interProStart
    split <;> exact ⟨rfl, rfl, rfl, rfl⟩
  | progEnd =>
    simp only [Sys.awayStep] at stepped
    split at stepped
    · cases stepped
      exact mirrors
    · cases stepped
  | _ => cases stepped

/-- **Every step keeps the set a mirror of the removed threads.** -/
theorem mirrors_step {label : Tid × Action} (safe : QueueSafe o s label) (below : CountsBelow s label)
    (mirrors : Mirrors [] s.sched) (stepped : s.step o label = some s') : Mirrors [] s'.sched := by
  obtain ⟨tid, action⟩ := label
  replace stepped := Sys.threadStep_of_step stepped
  have nonneg := rr.nonneg
  unfold Sys.threadStep at stepped
  split at stepped
  · exact mirrors_awayStep mirrors stepped
  · exact mirrors_awayStep mirrors stepped
  · cases stepped
    exact mirrors
  · cases stepped
    exact mirrors.congr rfl rfl rfl
  · cases stepped
    exact mirrors.keep ⟨rfl, rfl, rfl, rfl⟩
  · cases stepped
    exact mirrors.congr rfl rfl rfl
  · obtain ⟨sched, taken, rfl⟩ := Option.map_eq_some_iff.mp stepped
    exact mirrors.keep (KeepsNonDet.take taken)
  · rename_i here
    exact mirrors_turnStep rr on inv here safe below mirrors stepped
  · rename_i here
    have front := (inv.turn_front (by rw [here]; rfl) (by rw [here]; rfl)).1
    split at stepped
    · rename_i perm
      cases stepped
      exact mirrors_leave mirrors fun sched' blocked =>
        mirrors.block nonneg on inv.layout front safe perm (below rfl) blocked
    · cases stepped
  · rename_i cur here
    cases stepped
    cases cur with
    | none => exact mirrors_leave mirrors fun sched' put => mirrors.putTurn nonneg put
    | some cur =>
      simp only [Sys.tryStep]
      split
      · have entered : KeepsNonDet s.sched ((s.sched.setStatus cur .runningReg).enterIdle tid) :=
          ⟨rfl, rfl, rfl, rfl⟩
        exact mirrors_leave mirrors fun sched' waits =>
          mirrors.keep (entered.trans (KeepsNonDet.nextPop waits))
      · exact mirrors
  · exact mirrors_leaveStep rr on inv safe mirrors stepped
  · cases stepped

end Steps

/-! ### Runs -/

theorem init_mirrors (o : Options) (mainTh : PthreadT) : Mirrors [] (Sched.init o mainTh) :=
  ⟨⟨List.nodup_nil, List.nodup_nil, fun _ => Iff.rfl, List.Pairwise.nil,
    fun _ inside => absurd inside List.not_mem_nil, rfl⟩, fun _ => rfl⟩

/-- **The set mirrors the threads outside the run queue.** In every state of a run without `hp_runq`, as
long as the turn count stays below `2^32`: the list and the map have the same tids, each once; these are
the threads that `block` or `nextRunnable` removed and that have not been put back, which are the live
threads that are neither in `runq` nor in `waitq`; the clocks go up along the list; and `insert` and
`erase` have been called for no wrong tid. -/
theorem non_det_set_mirrors (o : Options) (rr : o.RoundRobin) (off : o.highPriority = false)
    (on : o.enforceNonDetClockBound = true) (mainTh : PthreadT) (labels : List (Tid × Action))
    (below : Along (Sys.step o) CountsBelow (Sys.init o mainTh) labels) (s : Sys)
    (ran : exec (Sys.step o) (Sys.init o mainTh) labels = some s) :
    s.sched.nonDetThds.tids.Nodup ∧ s.sched.nonDetThds.keys.Perm s.sched.nonDetThds.tids ∧
      (∀ t, t ∈ s.sched.nonDetThds.tids ↔ t ∈ s.sched.removed) ∧
      (∀ t, t ∈ s.sched.removed ↔
        s.sched.Live t ∧ s.sched.runq.isIn s.sched.elems t = false ∧ t ∉ s.sched.waitq) ∧
      (s.sched.nonDetThds.tids.Pairwise fun t u => s.sched.nonDetThds.clock t ≤ s.sched.nonDetThds.clock u) ∧
      (∀ first, s.sched.nonDetThds.tids.head? = some first → ∀ t ∈ s.sched.nonDetThds.tids,
        s.sched.nonDetThds.clock first ≤ s.sched.nonDetThds.clock t) ∧
      s.sched.nonDetThds.misused = false := by
  have holds : Inv.Holds o ⟨False, False⟩ s ∧ Mirrors [] s.sched := by
    refine exec_invariant (fun s => Inv.Holds o ⟨False, False⟩ s ∧ Mirrors [] s.sched) ?_
      ⟨⟨_, _, _, Inv.initial rr mainTh⟩, init_mirrors o mainTh⟩ below ran
    rintro s label s' ⟨⟨runq, hp, holder, inv⟩, mirrors⟩ below stepped
    have safe := queueSafe_of_off rr inv off label
    exact ⟨inv.step rr ⟨safe, False.elim, False.elim⟩ stepped,
      mirrors_step rr on inv safe below mirrors stepped⟩
  obtain ⟨⟨runq, hp, holder, inv⟩, ordered, members⟩ := holds
  have layout := inv.layout
  have sameKeys := (List.perm_ext_iff_of_nodup ordered.keysNodup ordered.nodup).mpr ordered.keys
  refine ⟨ordered.nodup, sameKeys, fun t => ?_, fun t => ?_, ordered.sorted,
    fun first isFirst => ordered.first_le isFirst, ordered.proper⟩
  · rw [← List.count_pos_iff, ← List.count_pos_iff, members t, List.count_nil, Nat.add_zero]
  · have isIn := @Linked.isIn_iff _ _ _ _ _ t layout.linked
    rw [layout.off off] at isIn
    constructor
    · intro member
      obtain ⟨live, notRunq, -, notWaiting⟩ := layout.removed_live member
      refine ⟨live, Bool.eq_false_iff.mpr fun inside => ?_, notWaiting⟩
      exact (isIn.mp inside).elim notRunq fun inHp => List.not_mem_nil inHp.1
    · rintro ⟨live, notIn, notWaiting⟩
      refine layout.removed_of_live live (fun inside => ?_) (fun inside => ?_) notWaiting
      · rw [isIn.mpr (Or.inl inside)] at notIn
        cases notIn
      · rw [layout.off off] at inside
        cases inside

/-- The main thread creates thread `1` and enters a non-det region. -/
def mainBlocks : List (Tid × Action) :=
  [(0, .getTurn), (0, .gotTurn), (0, .create 101 7), (0, .block []), (0, .checkWakeup []), (0, .nextRunnable),
    (0, .post)]

/-- It applies to a run in which the main thread is outside. -/
theorem non_det_set_mirrors_blocked : ∃ s,
    exec (Sys.step { enforceNonDetClockBound := true }) (Sys.init { enforceNonDetClockBound := true } 100)
      mainBlocks = some s ∧ s.sched.nonDetThds.tids = [0] ∧
    ∀ t, t ∈ s.sched.nonDetThds.tids ↔ t ∈ s.sched.removed := by
  have found : (exec (Sys.step { enforceNonDetClockBound := true })
      (Sys.init { enforceNonDetClockBound := true } 100) mainBlocks).any
        (fun s => decide (s.sched.nonDetThds.tids = [0])) = true := by decide +kernel
  obtain ⟨s, ran, here⟩ := exec_of_any found
  obtain ⟨-, -, members, -⟩ := non_det_set_mirrors { enforceNonDetClockBound := true } (by decide) (by decide)
    rfl 100 mainBlocks (by decide +kernel) s ran
  exact ⟨s, ran, of_decide_eq_true here, members⟩

end MinSmt
