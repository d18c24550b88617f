/-
**The yield counter of a run queue** (`num_yield_elem`, `include/tern/runtime/run-queue.h`).

`num_yield_elem` is meant to be the number of queued elements with `last_yield`. `insert_yield` counts
the new element unless the queue is empty, `pop_front` clears the field, and `erase` counts down and
leaves the field set.

* `behind_of_exact` — with an exact counter, `insert_yield` goes behind every yielded element, and
  behind one that is not, when there is one.
* `Counted.step` — what one operation does to the counter.
* **`yield_counts_iff`** — the counter stays exact as long as nobody yields into an empty queue and nobody
  queues an element that was erased while it counted as yielded; and an exact counter places the caller of
  `putTurn`.
* `yield_into_empty_queue` — a yield into an empty queue makes the counter wrap.
-/

import Mathlib.Data.List.Perm.Subperm
import MinSmt.Scheduler.QueueErase
import MinSmt.Scheduler.Release

namespace MinSmt

open MinSmt.Library

/-! ### Where an exact counter places an element -/

theorem steps_of_exact (numYieldElem count : Nat) (found : Bool) (flags : List Bool)
    (exact : numYieldElem = count + flags.count true) :
    true ∉ flags.drop (RunQueue.yieldSteps numYieldElem count found flags) ∧
      (found = true ∨ (false ∈ flags →
        false ∈ flags.take (RunQueue.yieldSteps numYieldElem count found flags))) := by
  induction flags generalizing count found with
  | nil => simp
  | cons yielded rest ih =>
    rw [RunQueue.yieldSteps]
    by_cases go : count < numYieldElem ∨ found = false
    · rw [if_pos go]
      cases yielded with
      | true =>
        have later := ih (count + 1) found (by
          rw [exact, List.count_cons_self]
          omega)
        simpa using later
      | false =>
        have later := ih count true (by rw [exact, List.count_cons_of_ne (by simp)])
        simp [later.1]
    · rw [if_neg go]
      obtain ⟨all, isFound⟩ := not_or.mp go
      refine ⟨?_, Or.inl (by simpa using isFound)⟩
      rw [List.drop_zero, ← List.count_eq_zero]
      omega

/-- **With an exact counter `insert_yield` goes behind every yielded element, and behind one that is
not.** -/
theorem behind_of_exact {numYieldElem : Nat} {flags : List Bool} (exact : numYieldElem = flags.count true) :
    true ∉ flags.drop (RunQueue.yieldPosition numYieldElem flags) ∧
      (false ∈ flags → false ∈ flags.take (RunQueue.yieldPosition numYieldElem flags)) := by
  cases flags with
  | nil => simp
  | cons head rest =>
    cases head with
    | true =>
      have later := steps_of_exact numYieldElem 1 false rest (by
        rw [exact, List.count_cons_self]
        omega)
      simpa [RunQueue.yieldPosition] using later
    | false =>
      have later := steps_of_exact numYieldElem 0 true rest (by
        rw [exact, List.count_cons_of_ne (by simp)]
        omega)
      simp [RunQueue.yieldPosition, later.1]

/-! ### Runs that note how an element came in -/

/-- A run queue together with the elements that `push_back` was the last to insert. -/
structure PushedStore where
  store : QueueStore := {}
  pushed : ElemId → Bool := fun _ => false

namespace PushedStore

/-- Note whether this element came in by `push_back`. -/
def note (s : PushedStore) (tid : Tid) (isPush : Bool) : ElemId → Bool := fun e =>
  if s.store.tidMap tid = some e then isPush else s.pushed e

/-- What is noted of a call. -/
def noted (s : PushedStore) : QueueOp → ElemId → Bool
  | .pushBack tid => s.note tid true
  | .pushFront tid => s.note tid false
  | .insertYield tid => s.note tid false
  | _ => s.pushed

/-- One call. -/
def step (s : PushedStore) (op : QueueOp) : Option PushedStore :=
  (s.store.step op).map fun next => { store := next, pushed := s.noted op }

/-- A call that the queue expects; an erase goes by a back link that is in order. -/
def Fits (s : PushedStore) (op : QueueOp) : Prop := s.store.Proper op ∧ s.store.ErasesByLink op

/-- **The counter is exact**, and no queued element that `push_back` inserted counts as yielded. -/
def Exact (s : PushedStore) : Prop :=
  s.store.queue.numYieldElem = s.store.contents.countP (fun e => (s.store.elems e).lastYield) ∧
  ∀ e ∈ s.store.contents, s.pushed e = true → (s.store.elems e).lastYield = false

/-- Nobody yields into an empty queue, and an element that is pushed does not count as yielded. -/
def YieldsWell (s : PushedStore) : QueueOp → Prop
  | .insertYield _ => s.store.contents ≠ []
  | .pushBack tid => ∀ e ∈ s.store.tidMap tid, (s.store.elems e).lastYield = false
  | .pushFront tid => ∀ e ∈ s.store.tidMap tid, (s.store.elems e).lastYield = false
  | _ => True

instance (s : PushedStore) (op : QueueOp) : Decidable (s.Fits op) := inferInstanceAs (Decidable (_ ∧ _))

instance (s : PushedStore) : Decidable s.Exact := inferInstanceAs (Decidable (_ ∧ _))

instance (s : PushedStore) : ∀ op, Decidable (s.YieldsWell op)
  | .insertYield _ => inferInstanceAs (Decidable (s.store.contents ≠ []))
  | .pushBack tid => inferInstanceAs (Decidable (∀ e ∈ s.store.tidMap tid, (s.store.elems e).lastYield = false))
  | .pushFront tid => inferInstanceAs (Decidable (∀ e ∈ s.store.tidMap tid, (s.store.elems e).lastYield = false))
  | .createThdElem _ | .popFront | .erase _ => isTrue trivial

end PushedStore

/-! ### What one operation does to the counter -/

/-- Counting down a `size_t`. -/
theorem countDown {n : Nat} (small : n < sizeT) : (n + 1 + (sizeT - 1)) % sizeT = n := by
  have wraps : 0 < sizeT := by decide
  rw [show n + 1 + (sizeT - 1) = n + sizeT by omega, Nat.add_mod_right, Nat.mod_eq_of_lt small]

/-- An intact queue whose elements were made for tids in range. -/
structure InRange (s : PushedStore) (nodes : List ElemId) : Prop where
  intact : Intact s.store nodes
  small : ∀ e, e < s.store.made → s.store.tidOf e < maxThreadNum

namespace InRange

variable {s next : PushedStore} {nodes : List ElemId}

theorem init : InRange {} [] := ⟨Intact.init, by simp⟩

/-- At most one element is queued for each tid. -/
theorem length_le (range : InRange s nodes) : nodes.length ≤ maxThreadNum := by
  have distinct : (nodes.map s.store.tidOf).Nodup := by
    refine range.intact.chain.nodup.map_on fun e inside e' inside' same => ?_
    have first := range.intact.named e (range.intact.queuedMade e inside)
    rw [same, range.intact.named e' (range.intact.queuedMade e' inside')] at first
    exact (Option.some.inj first).symm
  have among : nodes.map s.store.tidOf ⊆ List.range maxThreadNum := by
    intro tid inside
    obtain ⟨e, queued, rfl⟩ := List.mem_map.mp inside
    exact List.mem_range.mpr (range.small e (range.intact.queuedMade e queued))
  have bound := (distinct.subperm among).length_le
  rwa [List.length_map, List.length_range] at bound

theorem exact_iff (range : InRange s nodes) : s.Exact ↔
    s.store.queue.numYieldElem = nodes.countP (fun e => (s.store.elems e).lastYield) ∧
    ∀ e ∈ nodes, s.pushed e = true → (s.store.elems e).lastYield = false := by
  rw [PushedStore.Exact, range.intact.contents_eq]

/-- The next state is exact when the counter and the flags of its queued elements are. -/
theorem of_queue (range : InRange s nodes) {result : Elems × RunQueue} {op : QueueOp} {nodes' : List ElemId}
    (intact : Intact (s.store.withQueue result) nodes') :
    InRange { store := s.store.withQueue result, pushed := s.noted op } nodes' :=
  ⟨intact, range.small⟩

/-- Wrapping at `2^64` plays no part. -/
theorem countP_lt (range : InRange s nodes) (p : ElemId → Bool) : nodes.countP p < sizeT := by
  have bound := List.countP_le_length (p := p) (l := nodes)
  have short := range.length_le
  have small : maxThreadNum < sizeT := by decide
  omega

theorem createThdElem (range : InRange s nodes) (exact : s.Exact) {tid : Tid} (small : tid < maxThreadNum)
    (unused : s.store.tidMap tid = none) :
    InRange { store := s.store.createThdElem tid, pushed := s.pushed } nodes ∧
      PushedStore.Exact { store := s.store.createThdElem tid, pushed := s.pushed } := by
  have later : InRange { store := s.store.createThdElem tid, pushed := s.pushed } nodes := by
    refine ⟨range.intact.createThdElem unused, fun e made => ?_⟩
    by_cases new : e = s.store.made
    · simpa [QueueStore.createThdElem, new] using small
    · have before := range.small e (Nat.lt_of_le_of_ne (Nat.le_of_lt_succ made) new)
      simpa [QueueStore.createThdElem, new] using before
  have same : ∀ e ∈ nodes, ((s.store.createThdElem tid).elems e).lastYield = (s.store.elems e).lastYield := by
    intro e inside
    have old : e ≠ s.store.made := Nat.ne_of_lt (range.intact.queuedMade e inside)
    simp [QueueStore.createThdElem, old]
  obtain ⟨count, pushed⟩ := range.exact_iff.mp exact
  refine ⟨later, later.exact_iff.mpr ⟨?_, fun e inside isPushed => ?_⟩⟩
  · refine count.trans (List.countP_congr fun e inside => ?_)
    rw [same e inside]
  · rw [same e inside]
    exact pushed e inside isPushed

/-- An element put in by `push_back` or `push_front`. -/
theorem inserted (range : InRange s nodes) (exact : s.Exact) {tid : Tid} {elem : ElemId}
    (mapped : s.store.tidMap tid = some elem) (fresh : elem ∉ nodes) {result : Elems × RunQueue}
    {nodes' : List ElemId} {op : QueueOp} {isPush : Bool} (noted : s.noted op = s.note tid isPush)
    (intact : Intact (s.store.withQueue result) nodes') (perm : nodes'.Perm (elem :: nodes))
    (flags : ∀ e, (result.1 e).lastYield = (s.store.elems e).lastYield)
    (counter : result.2.numYieldElem = s.store.queue.numYieldElem) :
    PushedStore.Exact { store := s.store.withQueue result, pushed := s.noted op } ↔
      (s.store.elems elem).lastYield = false := by
  obtain ⟨count, pushed⟩ := range.exact_iff.mp exact
  have total : nodes'.countP (fun e => (result.1 e).lastYield) =
      nodes.countP (fun e => (s.store.elems e).lastYield) +
        if (s.store.elems elem).lastYield then 1 else 0 := by
    rw [perm.countP_eq, List.countP_cons, flags elem]
    exact congrArg (· + _) (List.countP_congr fun e _ => by rw [flags e])
  have after : InRange { store := s.store.withQueue result, pushed := s.noted op } nodes' :=
    range.of_queue intact
  rw [after.exact_iff]
  show result.2.numYieldElem = nodes'.countP (fun e => (result.1 e).lastYield) ∧
    (∀ e ∈ nodes', s.noted op e = true → (result.1 e).lastYield = false) ↔ _
  rw [total, counter, count]
  constructor
  · rintro ⟨same, -⟩
    by_contra flagged
    rw [Bool.not_eq_false] at flagged
    rw [if_pos flagged] at same
    omega
  · intro unflagged
    refine ⟨by simp [unflagged], fun e inside isPushed => ?_⟩
    rw [flags e]
    rcases List.mem_cons.mp (perm.mem_iff.mp inside) with rfl | queued
    · exact unflagged
    · refine pushed e queued ?_
      have other : s.store.tidMap tid ≠ some e := fun same => by
        rw [mapped] at same
        exact fresh (Option.some.inj same ▸ queued)
      simpa [noted, PushedStore.note, other] using isPushed

/-- An element put in by `insert_yield`. -/
theorem yielded (range : InRange s nodes) (exact : s.Exact) {tid : Tid} {elem : ElemId}
    (mapped : s.store.tidMap tid = some elem) (fresh : elem ∉ nodes) {result : Elems × RunQueue}
    {nodes' : List ElemId} (intact : Intact (s.store.withQueue result) nodes')
    (perm : nodes'.Perm (elem :: nodes))
    (flags : ∀ e, (result.1 e).lastYield = if e = elem then true else (s.store.elems e).lastYield)
    (counter : result.2.numYieldElem = if nodes = [] then s.store.queue.numYieldElem
      else (s.store.queue.numYieldElem + 1) % sizeT) :
    PushedStore.Exact { store := s.store.withQueue result, pushed := s.noted (.insertYield tid) } ↔
      s.YieldsWell (.insertYield tid) := by
  obtain ⟨count, pushed⟩ := range.exact_iff.mp exact
  have others : ∀ e ∈ nodes, (result.1 e).lastYield = (s.store.elems e).lastYield := by
    intro e queued
    have other : e ≠ elem := fun same => fresh (same ▸ queued)
    rw [flags e, if_neg other]
  have total : nodes'.countP (fun e => (result.1 e).lastYield) =
      nodes.countP (fun e => (s.store.elems e).lastYield) + 1 := by
    rw [perm.countP_eq, List.countP_cons, flags elem, if_pos rfl, if_pos rfl]
    exact congrArg (· + 1) (List.countP_congr fun e queued => by rw [others e queued])
  rw [(range.of_queue intact).exact_iff, PushedStore.YieldsWell, range.intact.contents_eq]
  show result.2.numYieldElem = nodes'.countP (fun e => (result.1 e).lastYield) ∧
    (∀ e ∈ nodes', s.note tid false e = true → (result.1 e).lastYield = false) ↔ _
  rw [total, counter, count]
  constructor
  · rintro ⟨same, -⟩ isNil
    rw [if_pos isNil] at same
    omega
  · intro nonempty
    have short := range.length_le
    have small : maxThreadNum + 1 < sizeT := by decide
    have bound := List.countP_le_length (p := fun e => (s.store.elems e).lastYield) (l := nodes)
    rw [if_neg nonempty, Nat.mod_eq_of_lt (by omega)]
    refine ⟨rfl, fun e inside isPushed => ?_⟩
    rcases List.mem_cons.mp (perm.mem_iff.mp inside) with rfl | queued
    · simp [PushedStore.note, mapped] at isPushed
    · rw [others e queued]
      refine pushed e queued ?_
      have other : s.store.tidMap tid ≠ some e := fun same => by
        rw [mapped] at same
        exact fresh (Option.some.inj same ▸ queued)
      simpa [PushedStore.note, other] using isPushed

/-- An element taken out, with the counter counted down when it was flagged. -/
theorem removed (range : InRange s nodes) (exact : s.Exact) {elem : ElemId} {rest : List ElemId}
    (perm : nodes.Perm (elem :: rest)) {result : Elems × RunQueue} {op : QueueOp}
    (noted : s.noted op = s.pushed) (intact : Intact (s.store.withQueue result) rest)
    (flags : ∀ e ∈ rest, (result.1 e).lastYield = (s.store.elems e).lastYield)
    (counter : result.2.numYieldElem = if (s.store.elems elem).lastYield then
      (s.store.queue.numYieldElem + (sizeT - 1)) % sizeT else s.store.queue.numYieldElem) :
    PushedStore.Exact { store := s.store.withQueue result, pushed := s.noted op } := by
  obtain ⟨count, pushed⟩ := range.exact_iff.mp exact
  have after : InRange { store := s.store.withQueue result, pushed := s.noted op } rest :=
    range.of_queue intact
  refine after.exact_iff.mpr ⟨?_, fun e inside isPushed => ?_⟩
  · have total : nodes.countP (fun e => (s.store.elems e).lastYield) =
        rest.countP (fun e => (result.1 e).lastYield) + if (s.store.elems elem).lastYield then 1 else 0 := by
      rw [perm.countP_eq, List.countP_cons]
      exact congrArg (· + _) (List.countP_congr fun e inside => by rw [flags e inside])
    have bound := range.countP_lt fun e => (s.store.elems e).lastYield
    show result.2.numYieldElem = rest.countP (fun e => (result.1 e).lastYield)
    rw [counter, count]
    by_cases flagged : (s.store.elems elem).lastYield = true
    · rw [if_pos flagged] at total ⊢
      rw [total] at bound ⊢
      exact countDown (Nat.lt_of_succ_lt bound)
    · rw [if_neg flagged] at total ⊢
      exact total
  · show (result.1 e).lastYield = false
    rw [flags e inside]
    refine pushed e (perm.mem_iff.mpr (List.mem_cons_of_mem _ inside)) ?_
    rw [← noted]
    exact isPushed

/-- **What one operation does**: from an exact counter it leads to one exactly when the yields are as they
should be. -/
theorem step (range : InRange s nodes) (exact : s.Exact) {op : QueueOp} (fits : s.Fits op)
    (moved : s.step op = some next) :
    (∃ nodes', InRange next nodes') ∧ (next.Exact ↔ s.YieldsWell op) := by
  have contents := range.intact.contents_eq
  obtain ⟨proper, byLink⟩ := fits
  obtain ⟨store, stored, rfl⟩ := Option.map_eq_some_iff.mp moved
  clear moved
  cases op with
  | createThdElem tid =>
    simp only [QueueStore.step] at stored
    split at stored
    case isFalse => cases stored
    case isTrue small =>
      cases stored
      obtain ⟨later, still⟩ := range.createThdElem exact small proper
      exact ⟨⟨nodes, later⟩, iff_of_true still trivial⟩
  | pushBack tid =>
    obtain ⟨elem, mapped, rfl⟩ := Option.map_eq_some_iff.mp stored
    have fresh : elem ∉ nodes := contents ▸ proper elem mapped
    have intact := range.intact.pushBack mapped fresh
    refine ⟨⟨_, range.of_queue intact⟩, ?_⟩
    have noted : s.noted (.pushBack tid) = s.note tid true := rfl
    rw [range.inserted exact mapped fresh noted intact (List.perm_append_singleton _ _)
      (fun e => RunQueue.pushBack_lastYield ..) (by rw [RunQueue.pushBack_queue])]
    simp [PushedStore.YieldsWell, mapped]
  | pushFront tid =>
    obtain ⟨elem, mapped, rfl⟩ := Option.map_eq_some_iff.mp stored
    have fresh : elem ∉ nodes := contents ▸ proper elem mapped
    have intact := range.intact.pushFront mapped fresh
    refine ⟨⟨_, range.of_queue intact⟩, ?_⟩
    rw [range.inserted exact mapped fresh rfl intact (List.Perm.refl _)
      (fun e => (RunQueue.pushFront_fields ..).2.2) (by rw [RunQueue.pushFront_queue])]
    simp [PushedStore.YieldsWell, mapped]
  | insertYield tid =>
    obtain ⟨elem, mapped, inserted⟩ := Option.bind_eq_some_iff.mp stored
    have fresh : elem ∉ nodes := contents ▸ proper elem mapped
    obtain ⟨result, nodes', isResult, intact, perm, flags, counter⟩ := range.intact.insertYield mapped fresh
    rw [isResult] at inserted
    cases inserted
    exact ⟨⟨_, range.of_queue intact⟩, range.yielded exact mapped fresh intact perm flags counter⟩
  | popFront =>
    cases nodes with
    | nil => exact absurd contents proper
    | cons first rest =>
      obtain ⟨elems', q', popped, -, fields, counter⟩ := range.intact.chain.popFront
      obtain ⟨result, isResult, intact⟩ := range.intact.popFront
      rw [popped] at isResult
      cases isResult
      rw [QueueStore.step, popped] at stored
      cases stored
      have distinct := List.nodup_cons.mp range.intact.chain.nodup
      refine ⟨⟨_, range.of_queue intact⟩, iff_of_true ?_ trivial⟩
      refine range.removed exact (List.Perm.refl _) rfl intact (fun e inside => ?_) counter
      have other : e ≠ first := fun same => distinct.1 (same ▸ inside)
      rw [(fields e).2.2, if_neg other]
  | erase position =>
    cases stored
    cases position with
    | none => exact ⟨⟨nodes, range⟩, iff_of_true exact trivial⟩
    | some e =>
      have inside : e ∈ nodes := contents ▸ proper e rfl
      obtain ⟨front, rest, rfl⟩ := List.append_of_mem inside
      have intact := range.intact.erase (byLink e rfl)
      refine ⟨⟨_, range.of_queue intact⟩, iff_of_true ?_ trivial⟩
      refine range.removed exact List.perm_middle rfl intact (fun t _ => ?_) ?_
      · exact (RunQueue.erase_fields ..).2.2
      · rw [(RunQueue.erase_queue ..).1]

end InRange

/-! ### The caller of `putTurn` -/

/-- What `pop_front` does to the flags and the counter. -/
theorem popFront_yields {q q' : RunQueue} {elems elems' : Elems} {tid : Tid} (isHead : q.head = some tid)
    (popped : q.popFront elems = some (elems', q')) :
    (∀ t, t ≠ tid → (elems' t).lastYield = (elems t).lastYield) ∧
      q'.numYieldElem = if (elems tid).lastYield then (q.numYieldElem + (sizeT - 1)) % sizeT
        else q.numYieldElem := by
  rw [RunQueue.popFront, isHead] at popped
  cases popped
  exact ⟨fun t other => by simp [other], rfl⟩

/-- The caller stands in the run queue behind every yielded thread, and behind one that did not yield when
there is one. -/
def PlacedBehind (s s' : Sched) (runq : List Tid) (tid : Tid) : Prop :=
  ∃ ahead behind, Forward (fun t => (s'.elems t).next) s'.runq.head (ahead ++ tid :: behind) ∧
    ahead ++ behind = runq.erase tid ∧ (∀ t ∈ behind, (s.elems t).lastYield = false) ∧
    ((∃ t ∈ ahead ++ behind, (s.elems t).lastYield = false) → ∃ t ∈ ahead, (s.elems t).lastYield = false)

/-- `insert_yield` after the pop, with a counter that is exact for the threads that stay. -/
theorem insertYield_placed {s popped : Sched} {runq rest hp : List Tid} {tid : Tid}
    (linked : Linked popped.elems popped.runq popped.hpRunq rest hp) (fresh : tid ∉ rest) (fresh' : tid ∉ hp)
    (isRest : rest = runq.erase tid) (flags : ∀ t ∈ rest, (popped.elems t).lastYield = (s.elems t).lastYield)
    (exact : popped.runq.numYieldElem = rest.countP fun t => (s.elems t).lastYield) :
    ∃ s', popped.insertYield tid = some s' ∧ PlacedBehind s s' runq tid := by
  obtain ⟨elems', q', inserted, linked', -⟩ := linked.insertYield_at fresh fresh'
  have sameFlags : rest.map (fun t => (popped.elems t).lastYield) = rest.map fun t => (s.elems t).lastYield :=
    List.map_congr_left flags
  rw [sameFlags] at linked'
  generalize isPosition : RunQueue.yieldPosition popped.runq.numYieldElem
    (rest.map fun t => (s.elems t).lastYield) = position at linked'
  have count : popped.runq.numYieldElem = (rest.map fun t => (s.elems t).lastYield).count true := by
    rw [exact, List.count, List.countP_map]
    exact List.countP_congr fun t _ => by simp
  have place := behind_of_exact count
  rw [isPosition, ← List.map_drop, ← List.map_take] at place
  refine ⟨_, by rw [Sched.insertYield, inserted]; rfl, rest.take position, rest.drop position, ?_, ?_,
    fun t inside => ?_, ?_⟩
  · have forward := linked'.queue.forward
    rw [RunQueue.insertYielded, isPosition] at forward
    exact forward
  · rw [List.take_append_drop, isRest]
  · by_contra flagged
    exact place.1 (List.mem_map.mpr ⟨t, inside, by simpa using flagged⟩)
  · rintro ⟨t, inside, unflagged⟩
    rw [List.take_append_drop] at inside
    obtain ⟨other, ahead, isFalse⟩ := List.mem_map.mp (place.2 (List.mem_map.mpr ⟨t, inside, unflagged⟩))
    exact ⟨other, ahead, isFalse⟩

/-- **With an exact counter `putTurn` places a yielding caller behind the threads that it should go
behind.** -/
theorem requeue_yield_placed {s : Sched} {runq hp : List Tid} {tid : Tid}
    (linked : Linked s.elems s.runq s.hpRunq runq hp) (front : Sched.AtFront s runq hp tid)
    (inRange : s.runq.numYieldElem < sizeT)
    (exact : s.runq.numYieldElem = runq.countP fun t => (s.elems t).lastYield) :
    ∃ s', s.requeue tid .yield = some s' ∧ PlacedBehind s s' runq tid := by
  unfold Sched.AtFront at front
  by_cases set : (s.waits tid).wokenUpFromHpQueueFlag = true
  · rw [if_pos set] at front
    obtain ⟨others, rfl⟩ := List.head?_eq_some_iff.mp front
    obtain ⟨elems, h, popped, linked', -⟩ := linked.symm.popFront
    have outside : tid ∉ runq := fun inside => linked.apart tid inside List.mem_cons_self
    have notOthers : tid ∉ others := (List.nodup_cons.mp linked.second.queue.nodup).1
    have flags := (popFront_yields (linked.symm.queue.head_eq) popped).1
    rw [Sched.requeue, Sched.popOwn, if_pos set, Sched.popHpRunq, popped]
    refine insertYield_placed linked'.symm outside notOthers (List.erase_of_not_mem outside).symm
      (fun t inside => ?_) exact
    exact flags t fun same => outside (same ▸ inside)
  · rw [if_neg set] at front
    obtain ⟨rest, rfl⟩ := List.head?_eq_some_iff.mp front
    obtain ⟨elems, q, popped, linked', -⟩ := linked.popFront
    have outside : tid ∉ rest := (List.nodup_cons.mp linked.queue.queue.nodup).1
    have notHp : tid ∉ hp := linked.apart tid List.mem_cons_self
    obtain ⟨flags, counter⟩ := popFront_yields (linked.queue.head_eq) popped
    rw [Sched.requeue, Sched.popOwn, if_neg set, Sched.popRunq, popped]
    refine insertYield_placed linked' outside notHp (List.erase_cons_head ..).symm (fun t inside => ?_) ?_
    · exact flags t fun same => outside (same ▸ inside)
    · rw [List.countP_cons] at exact
      show q.numYieldElem = _
      rw [counter]
      by_cases flagged : (s.elems tid).lastYield = true
      · rw [if_pos flagged] at exact ⊢
        rw [exact] at inRange ⊢
        exact countDown (Nat.lt_of_succ_lt inRange)
      · rw [if_neg flagged] at exact ⊢
        exact exact

/-! ### Runs -/

/-- **The yield counter is exact in every state that a run reaches exactly when nobody yields into an
empty queue and nobody queues an element that still counts as yielded**; and with an exact counter
`putTurn` places a yielding caller behind every yielded thread and behind one that did not yield. -/
theorem yield_counts_iff {ops : List QueueOp} {final : PushedStore}
    (run : exec PushedStore.step {} ops = some final)
    (fits : Along PushedStore.step PushedStore.Fits {} ops) :
    (Throughout PushedStore.step PushedStore.Exact {} ops ↔
      Along PushedStore.step PushedStore.YieldsWell {} ops) ∧
    ∀ (s : Sched) (runq hp : List Tid) (tid : Tid), Linked s.elems s.runq s.hpRunq runq hp →
      s.AtFront runq hp tid → s.runq.numYieldElem < sizeT →
      s.runq.numYieldElem = runq.countP (fun t => (s.elems t).lastYield) →
      ∃ s', s.requeue tid .yield = some s' ∧ PlacedBehind s s' runq tid := by
  refine ⟨?_, fun s runq hp tid linked front inRange exact =>
    requeue_yield_placed linked front inRange exact⟩
  refine throughout_iff_along_given (fun s => (∃ nodes, InRange s nodes) ∧ s.Exact)
    (fun s inv => inv.2) (fun s op next inv fits well moved => ?_) (fun s op next inv fits moved => ?_)
    ⟨⟨[], InRange.init⟩, by decide +kernel⟩ fits run
  · obtain ⟨⟨nodes, range⟩, exact⟩ := inv
    obtain ⟨later, still⟩ := range.step exact fits moved
    exact ⟨later, still.mpr well⟩
  · obtain ⟨⟨nodes, range⟩, exact⟩ := inv
    exact (range.step exact fits moved).2

/-- It applies to a run in which a thread yields behind another one. -/
theorem yield_counts_iff_one_yield : ∃ final, exec PushedStore.step {} [.createThdElem 2, .createThdElem 3,
      .pushBack 2, .pushBack 3, .popFront, .insertYield 2] = some final ∧
    Throughout PushedStore.step PushedStore.Exact {} [.createThdElem 2, .createThdElem 3,
      .pushBack 2, .pushBack 3, .popFront, .insertYield 2] := by
  have found : (exec PushedStore.step {} [.createThdElem 2, .createThdElem 3, .pushBack 2, .pushBack 3,
      .popFront, .insertYield 2]).any (fun _ => true) = true := by decide +kernel
  obtain ⟨final, run, -⟩ := exec_of_any found
  exact ⟨final, run, (yield_counts_iff run (by decide +kernel)).1.mpr (by decide +kernel)⟩

/-- **A yield into an empty queue is not counted, and the next `pop_front` makes the counter wrap.** -/
theorem yield_into_empty_queue : ∃ s,
    exec PushedStore.step {} [.createThdElem 2, .insertYield 2, .popFront] = some s ∧
    Along PushedStore.step PushedStore.Fits {} [.createThdElem 2, .insertYield 2, .popFront] ∧
    s.store.contents = [] ∧ s.store.queue.numYieldElem = sizeT - 1 ∧ ¬ s.Exact := by
  have found : (exec PushedStore.step {} [.createThdElem 2, .insertYield 2, .popFront]).any (fun s =>
      decide (s.store.contents = [] ∧ s.store.queue.numYieldElem = sizeT - 1 ∧ ¬ s.Exact)) = true := by
    decide +kernel
  obtain ⟨s, run, here⟩ := exec_of_any found
  exact ⟨s, run, by decide +kernel, of_decide_eq_true here⟩

end MinSmt
