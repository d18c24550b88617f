/-
**A run queue refines a list** (`include/tern/runtime/run-queue.h`).

`QueueStore` is a `run_queue` with its element objects: an element is written as the number of its
allocation, `tid_map` names the element that `create_thd_elem` made last for a tid, and every element knows
the tid it was made for. `QueueStore.step` is one call from outside; `none` is a null dereference, or a tid
past the end of `tid_map`. `ListQueue` is what the queue is for: a list of tids, front first.

* `Represents.step` — each operation on the list is followed by the queue.
* **`queue_refines_list`** — with `create_thd_elem`, `push_back`, `insert_yield` and `pop_front` the
  queue is the list, as long as nobody makes a second element for a tid that is queued.
* `second_element_is_not_in` — `in` answers for the element that was made last.
-/

import MinSmt.Library.Run
import MinSmt.Scheduler.QueueOps

namespace MinSmt

open MinSmt.Library

/-- The calls on a `run_queue` that change it. -/
inductive QueueOp
  | createThdElem (tid : Tid)
  | pushBack (tid : Tid)
  | pushFront (tid : Tid)
  | insertYield (tid : Tid)
  | popFront
  | erase (position : Option ElemId)
  deriving DecidableEq, Repr

/-! ### The queue and its element objects -/

/-- A `run_queue` with the elements that were made for it. -/
structure QueueStore where
  queue : RunQueue := {}
  elems : Elems := fun _ => {}
  tidMap : Tid → Option ElemId := fun _ => none
  tidOf : ElemId → Tid := fun _ => 0
  made : Nat := 0

namespace QueueStore

/-- The queue and its elements after an operation. -/
def withQueue (s : QueueStore) (result : Elems × RunQueue) : QueueStore :=
  { s with elems := result.1, queue := result.2 }

/-- `run_queue::create_thd_elem`; its assertion that the tid has no element is compiled out. -/
def createThdElem (s : QueueStore) (tid : Tid) : QueueStore :=
  { s with
    elems := Function.update s.elems s.made {}
    tidMap := Function.update s.tidMap tid (some s.made)
    tidOf := Function.update s.tidOf s.made tid
    made := s.made + 1 }

/-- One call. -/
def step (s : QueueStore) : QueueOp → Option QueueStore
  | .createThdElem tid => if tid < maxThreadNum then some (s.createThdElem tid) else none
  | .pushBack tid => (s.tidMap tid).map fun elem => s.withQueue (s.queue.pushBack s.elems elem)
  | .pushFront tid => (s.tidMap tid).map fun elem => s.withQueue (s.queue.pushFront s.elems elem)
  | .insertYield tid =>
    (s.tidMap tid).bind fun elem => (s.queue.insertYield s.elems elem).map s.withQueue
  | .popFront => (s.queue.popFront s.elems).map s.withQueue
  | .erase position => some (s.withQueue (s.queue.erase s.elems position).1)

/-- `run_queue::in`. -/
def isIn (s : QueueStore) (tid : Tid) : Option Bool :=
  (s.tidMap tid).map fun elem => s.queue.isIn s.elems elem

/-- `run_queue::front`. -/
def front (s : QueueStore) : Option Tid := s.queue.head.map s.tidOf

/-- `run_queue::size`. -/
def size (s : QueueStore) : Nat := s.queue.numElements

/-- `run_queue::empty`. -/
def empty (s : QueueStore) : Bool := s.queue.empty

/-- The traversal from `begin()` to `end()` visits these elements. -/
def Traversal (s : QueueStore) (nodes : List ElemId) : Prop :=
  Forward (fun e => (s.elems e).next) s.queue.head nodes

@[simp] theorem withQueue_queue (s : QueueStore) (result : Elems × RunQueue) :
    (s.withQueue result).queue = result.2 := rfl

@[simp] theorem withQueue_elems (s : QueueStore) (result : Elems × RunQueue) :
    (s.withQueue result).elems = result.1 := rfl

@[simp] theorem withQueue_tidMap (s : QueueStore) (result : Elems × RunQueue) :
    (s.withQueue result).tidMap = s.tidMap := rfl

@[simp] theorem withQueue_tidOf (s : QueueStore) (result : Elems × RunQueue) :
    (s.withQueue result).tidOf = s.tidOf := rfl

@[simp] theorem withQueue_made (s : QueueStore) (result : Elems × RunQueue) :
    (s.withQueue result).made = s.made := rfl

end QueueStore

/-! ### The list -/

/-- The list that the queue stands for: the tids, front first, each with whether it came in by
`insert_yield`; and the counter that `insert_yield` goes by. -/
structure ListQueue where
  items : List (Tid × Bool) := []
  numYield : Nat := 0
  created : List Tid := []
  deriving DecidableEq, Repr

namespace ListQueue

/-- The queued tids. -/
def tids (l : ListQueue) : List Tid := l.items.map Prod.fst

/-- One operation; an element is inserted only when its tid has one and is not queued. `insert_yield`
inserts at the position that its own loop selects. -/
def step (l : ListQueue) : QueueOp → Option ListQueue
  | .createThdElem tid =>
    if tid < maxThreadNum then some { l with created := tid :: l.created } else none
  | .pushBack tid =>
    if tid ∈ l.created ∧ tid ∉ l.tids then some { l with items := l.items ++ [(tid, false)] } else none
  | .insertYield tid =>
    if tid ∈ l.created ∧ tid ∉ l.tids then
      some { l with
        items := RunQueue.insertYielded l.numYield (l.items.map Prod.snd) l.items (tid, true)
        numYield := if l.items = [] then l.numYield else (l.numYield + 1) % sizeT }
    else none
  | .popFront =>
    match l.items with
    | [] => none
    | (_, yielded) :: rest =>
      some { l with
        items := rest
        numYield := if yielded then (l.numYield + (sizeT - 1)) % sizeT else l.numYield }
  | .pushFront _ => none
  | .erase _ => none

/-- A second element for a tid is made only when the first one is not queued. -/
def CreatesUnqueued (l : ListQueue) : QueueOp → Prop
  | .createThdElem tid => tid ∉ l.tids
  | _ => True

instance (l : ListQueue) : ∀ op, Decidable (l.CreatesUnqueued op)
  | .createThdElem tid => inferInstanceAs (Decidable (tid ∉ l.tids))
  | .pushBack _ | .pushFront _ | .insertYield _ | .popFront | .erase _ => isTrue trivial

end ListQueue

/-- **The queue is the list**: traversal, size, front, emptiness and membership. -/
structure QueueStore.Refines (s : QueueStore) (l : ListQueue) : Prop where
  traversal : ∃ nodes, s.Traversal nodes ∧ nodes.map s.tidOf = l.tids
  size : s.size = l.tids.length
  front : s.front = l.tids.head?
  empty : s.empty = true ↔ l.tids = []
  isIn : ∀ tid, s.isIn tid = some true ↔ tid ∈ l.tids
  answers : ∀ tid ∈ l.created, s.isIn tid ≠ none

/-! ### The queue follows the list -/

/-- How the links stand for the list: a queued element is the one that `tid_map` names, and an element that
is not queued does not count as yielded. -/
structure Represents (l : ListQueue) (s : QueueStore) (nodes : List ElemId) : Prop where
  chain : s.queue.Chain s.elems nodes
  linked : RunQueue.LastLinked s.elems nodes
  items : nodes.map (fun e => (s.tidOf e, (s.elems e).lastYield)) = l.items
  numYield : s.queue.numYieldElem = l.numYield
  created : ∀ tid, tid ∈ l.created ↔ s.tidMap tid ≠ none
  current : ∀ e ∈ nodes, s.tidMap (s.tidOf e) = some e
  own : ∀ tid e, s.tidMap tid = some e → s.tidOf e = tid ∧ e < s.made
  unflagged : ∀ e, e ∉ nodes → (s.elems e).lastYield = false

namespace Represents

variable {l l' : ListQueue} {s : QueueStore} {nodes : List ElemId} {tid : Tid} {elem : ElemId}

theorem init : Represents {} {} [] where
  chain := RunQueue.Chain.empty _ fun _ => ⟨rfl, rfl⟩
  linked := fun long => by simp at long
  items := rfl
  numYield := rfl
  created := by simp
  current := by simp
  own := by simp
  unflagged := by simp

theorem tids_eq (rep : Represents l s nodes) : nodes.map s.tidOf = l.tids := by
  rw [ListQueue.tids, ← rep.items, List.map_map]
  rfl

theorem flags_eq (rep : Represents l s nodes) :
    nodes.map (fun e => (s.elems e).lastYield) = l.items.map Prod.snd := by
  rw [← rep.items, List.map_map]
  rfl

theorem mem_iff (rep : Represents l s nodes) (mapped : s.tidMap tid = some elem) :
    elem ∈ nodes ↔ tid ∈ l.tids := by
  rw [← rep.tids_eq, List.mem_map]
  constructor
  · exact fun inside => ⟨elem, inside, (rep.own tid elem mapped).1⟩
  · rintro ⟨e, inside, isTid⟩
    have isElem := rep.current e inside
    rw [isTid, mapped] at isElem
    exact Option.some.inj isElem ▸ inside

/-- An element whose tid has one and is not queued. -/
theorem fresh (rep : Represents l s nodes) (may : tid ∈ l.created ∧ tid ∉ l.tids) :
    ∃ elem, s.tidMap tid = some elem ∧ elem ∉ nodes ∧ s.tidOf elem = tid := by
  obtain ⟨elem, mapped⟩ := Option.ne_none_iff_exists'.mp ((rep.created tid).mp may.1)
  exact ⟨elem, mapped, fun inside => may.2 ((rep.mem_iff mapped).mp inside), (rep.own tid elem mapped).1⟩

/-- **Everything that can be asked of the queue is answered as by the list.** -/
theorem refines (rep : Represents l s nodes) : s.Refines l := by
  have exact := rep.chain.isIn_iff.mpr rep.linked
  refine ⟨⟨nodes, rep.chain.forward, rep.tids_eq⟩, ?_, ?_, ?_, fun tid => ?_, fun tid made => ?_⟩
  · rw [QueueStore.size, rep.chain.size, ← rep.tids_eq, List.length_map]
  · rw [QueueStore.front, rep.chain.head_eq, ← rep.tids_eq, List.head?_map]
  · rw [QueueStore.empty, RunQueue.empty, beq_iff_eq, rep.chain.size, ← rep.tids_eq, List.map_eq_nil_iff,
      List.length_eq_zero_iff]
  · rw [QueueStore.isIn, Option.map_eq_some_iff]
    constructor
    · rintro ⟨elem, mapped, answer⟩
      exact (rep.mem_iff mapped).mp ((exact elem).mp answer)
    · intro inside
      obtain ⟨elem, queued, rfl⟩ := List.mem_map.mp (rep.tids_eq ▸ inside)
      exact ⟨elem, rep.current elem queued, (exact elem).mpr queued⟩
  · rw [QueueStore.isIn, ne_eq, Option.map_eq_none_iff]
    exact (rep.created tid).mp made

theorem createThdElem (rep : Represents l s nodes) (unqueued : tid ∉ l.tids) :
    Represents { l with created := tid :: l.created } (s.createThdElem tid) nodes := by
  have queuedMade : ∀ e ∈ nodes, e ≠ s.made := fun e inside =>
    Nat.ne_of_lt (rep.own _ e (rep.current e inside)).2
  have unqueuedNew : s.made ∉ nodes := fun inside => queuedMade _ inside rfl
  have elemsOf : ∀ e, e ≠ s.made → (s.createThdElem tid).elems e = s.elems e := fun e old =>
    Function.update_of_ne old _ _
  have tidOf : ∀ e, e ≠ s.made → (s.createThdElem tid).tidOf e = s.tidOf e := fun e old =>
    Function.update_of_ne old _ _
  have mapOf : ∀ t, t ≠ tid → (s.createThdElem tid).tidMap t = s.tidMap t := fun t other =>
    Function.update_of_ne other _ _
  have newMap : (s.createThdElem tid).tidMap tid = some s.made := Function.update_self ..
  refine ⟨rep.chain.congr fun e => ?_, fun long last isLast => ?_, ?_, rep.numYield, fun t => ?_,
    fun e inside => ?_, fun t e mapped => ?_, fun e outside => ?_⟩
  · by_cases new : e = s.made
    · subst new
      rw [(rep.chain.bare s.made unqueuedNew).1, (rep.chain.bare s.made unqueuedNew).2]
      simp [QueueStore.createThdElem]
    · rw [elemsOf e new]
      exact ⟨rfl, rfl⟩
  · rw [elemsOf last (queuedMade last (List.mem_of_getLast? isLast))]
    exact rep.linked long last isLast
  · rw [← rep.items]
    refine List.map_congr_left fun e inside => ?_
    rw [elemsOf e (queuedMade e inside), tidOf e (queuedMade e inside)]
  · by_cases same : t = tid
    · simp [same, newMap]
    · rw [mapOf t same, ← rep.created t]
      simp [same]
  · rw [tidOf e (queuedMade e inside), mapOf]
    · exact rep.current e inside
    · rintro isTid
      exact unqueued (rep.tids_eq ▸ List.mem_map.mpr ⟨e, inside, isTid⟩)
  · by_cases same : t = tid
    · subst same
      obtain rfl : s.made = e := Option.some.inj (newMap.symm.trans mapped)
      exact ⟨Function.update_self .., Nat.lt_succ_self _⟩
    · rw [mapOf t same] at mapped
      obtain ⟨isTid, made⟩ := rep.own t e mapped
      exact ⟨(tidOf e (Nat.ne_of_lt made)).trans isTid, Nat.lt_succ_of_lt made⟩
  · by_cases new : e = s.made
    · simp [QueueStore.createThdElem, new]
    · rw [elemsOf e new]
      exact rep.unflagged e outside

/-- An insertion leaves the elements and their tids in place. -/
theorem inserted (rep : Represents l s nodes) (mapped : s.tidMap tid = some elem)
    {result : Elems × RunQueue} {nodes' : List ElemId} {items : List (Tid × Bool)} {numYield : Nat}
    (chain : result.2.Chain result.1 nodes') (linked : RunQueue.LastLinked result.1 nodes')
    (isItems : nodes'.map (fun e => (s.tidOf e, (result.1 e).lastYield)) = items)
    (isCount : result.2.numYieldElem = numYield) (members : ∀ e, e ∈ nodes' ↔ e = elem ∨ e ∈ nodes)
    (flags : ∀ e, e ≠ elem → (result.1 e).lastYield = (s.elems e).lastYield) :
    Represents { l with items := items, numYield := numYield } (s.withQueue result) nodes' := by
  refine ⟨chain, linked, isItems, isCount, rep.created, fun e inside => ?_, rep.own, fun e outside => ?_⟩
  · rcases (members e).mp inside with rfl | queued
    · show s.tidMap (s.tidOf e) = some e
      rw [(rep.own tid e mapped).1, mapped]
    · exact rep.current e queued
  · have both := mt (members e).mpr outside
    rw [QueueStore.withQueue_elems, flags e fun same => both (Or.inl same)]
    exact rep.unflagged e fun queued => both (Or.inr queued)

/-- **Each operation on the list is followed by the queue.** -/
theorem step (rep : Represents l s nodes) {op : QueueOp} (unqueued : l.CreatesUnqueued op)
    (moved : l.step op = some l') : ∃ s' nodes', s.step op = some s' ∧ Represents l' s' nodes' := by
  cases op with
  | createThdElem tid =>
    simp only [ListQueue.step] at moved
    split at moved
    case isFalse => cases moved
    case isTrue small =>
      obtain rfl := Option.some.inj moved
      exact ⟨_, _, if_pos small, rep.createThdElem unqueued⟩
  | pushBack tid =>
    simp only [ListQueue.step] at moved
    split at moved
    case isFalse => cases moved
    case isTrue may =>
      obtain rfl := Option.some.inj moved
      obtain ⟨elem, mapped, outside, isTid⟩ := rep.fresh may
      obtain ⟨chain, linked⟩ := rep.chain.pushBack outside
      refine ⟨_, _, by rw [QueueStore.step, mapped]; rfl, rep.inserted mapped chain linked ?_ ?_ ?_ ?_⟩
      · have flag := rep.unflagged elem outside
        simp [RunQueue.pushBack_lastYield, rep.items, isTid, flag]
      · rw [RunQueue.pushBack_queue]
        exact rep.numYield
      · intro e
        simp [or_comm]
      · intro e _
        exact RunQueue.pushBack_lastYield ..
  | insertYield tid =>
    simp only [ListQueue.step] at moved
    split at moved
    case isFalse => cases moved
    case isTrue may =>
      obtain rfl := Option.some.inj moved
      obtain ⟨elem, mapped, outside, isTid⟩ := rep.fresh may
      obtain ⟨elems', q', result, chain, linked, fields, count⟩ := rep.chain.insertYield outside
      rw [rep.flags_eq, rep.numYield] at chain linked
      refine ⟨_, _, by rw [QueueStore.step, mapped]; exact congrArg (Option.map _) result,
        rep.inserted mapped chain (linked rep.linked) ?_ ?_ ?_ ?_⟩
      · have others : nodes.map (fun e => (s.tidOf e, (elems' e).lastYield)) = l.items := by
          rw [← rep.items]
          refine List.map_congr_left fun e inside => ?_
          have notElem : e ≠ elem := fun same => outside (same ▸ inside)
          rw [(fields e).1, if_neg notElem]
        rw [RunQueue.map_insertYielded, others, (fields elem).1, if_pos rfl, isTid]
      · rw [count, rep.numYield, ← rep.items]
        simp
      · intro e
        simp
      · intro e notElem
        rw [(fields e).1, if_neg notElem]
  | popFront =>
    simp only [ListQueue.step] at moved
    split at moved
    case h_1 => cases moved
    case h_2 front yielded rest isItems =>
      obtain rfl := Option.some.inj moved
      have shape := rep.items.trans isItems
      obtain ⟨first, nodes, rfl, isFront, isRest⟩ := List.map_eq_cons_iff.mp shape
      obtain ⟨elems', q', popped, chain, fields, count⟩ := rep.chain.popFront
      have outside := (List.nodup_cons.mp rep.chain.nodup).1
      have queued : ∀ e ∈ nodes, e ≠ first := fun e inside same => outside (same ▸ inside)
      refine ⟨_, nodes, congrArg (Option.map _) popped, chain, ?_, ?_, ?_, rep.created, ?_, rep.own, ?_⟩
      · refine RunQueue.Chain.LastLinked.tail rep.linked fun e inside => ?_
        rw [QueueStore.withQueue_elems, (fields e).2.1, if_neg (queued e inside)]
      · show nodes.map _ = rest
        rw [← isRest]
        refine List.map_congr_left fun e inside => ?_
        show (s.tidOf e, (elems' e).lastYield) = _
        rw [(fields e).2.2, if_neg (queued e inside)]
      · show q'.numYieldElem = _
        rw [count, ← rep.numYield, ← (Prod.mk.inj isFront).2]
      · exact fun e inside => rep.current e (List.mem_cons_of_mem _ inside)
      · intro e out
        show (elems' e).lastYield = false
        rw [(fields e).2.2]
        by_cases same : e = first
        · rw [if_pos same]
        · rw [if_neg same]
          exact rep.unflagged e (by simp [same, out])
  | pushFront tid => cases moved
  | erase position => cases moved

end Represents

/-! ### Runs -/

/-- **The run queue refines a list.** For every sequence of `create_thd_elem`, `push_back`,
`insert_yield` and `pop_front` that makes sense on a list, in which no second element is made for a
queued tid, the queue performs the sequence, and its traversal, size, front, emptiness and membership
are those of the list. -/
theorem queue_refines_list {ops : List QueueOp} {list : ListQueue}
    (sensible : exec ListQueue.step {} ops = some list)
    (unqueued : Along ListQueue.step ListQueue.CreatesUnqueued {} ops) :
    ∃ final, exec QueueStore.step {} ops = some final ∧ final.Refines list := by
  obtain ⟨final, run, nodes, rep⟩ := exec_simulates (fun l s => ∃ nodes, Represents l s nodes)
    (fun l s op l' ⟨nodes, rep⟩ unqueued moved => by
      obtain ⟨s', nodes', moved', rep'⟩ := rep.step unqueued moved
      exact ⟨s', moved', nodes', rep'⟩)
    ⟨[], Represents.init⟩ unqueued sensible
  exact ⟨final, run, rep.refines⟩

/-- The rule holds of a run in which a thread yields behind two others. -/
theorem queue_refines_list_yield : ∃ final,
    exec QueueStore.step {} [.createThdElem 2, .createThdElem 3, .createThdElem 4, .pushBack 2, .pushBack 3,
      .popFront, .insertYield 4, .insertYield 2] = some final ∧
    final.Refines { items := [(3, false), (4, true), (2, true)], numYield := 2, created := [4, 3, 2] } :=
  queue_refines_list (by decide +kernel) (by decide +kernel)

/-- A second element for a queued tid is made, and `in` answers for it: the tid is queued, and `in` is
false. -/
theorem second_element_is_not_in : ∃ list final,
    exec ListQueue.step {} [.createThdElem 2, .pushBack 2, .createThdElem 2] = some list ∧
    exec QueueStore.step {} [.createThdElem 2, .pushBack 2, .createThdElem 2] = some final ∧
    2 ∈ list.tids ∧ final.Traversal [0] ∧ final.tidOf 0 = 2 ∧ final.isIn 2 = some false ∧
    ¬ final.Refines list := by
  refine ⟨_, _, rfl, rfl, by decide +kernel, ⟨rfl, rfl⟩, rfl, by decide +kernel, fun refines => ?_⟩
  have answer := (refines.isIn 2).mpr (by decide +kernel)
  revert answer
  decide +kernel

end MinSmt
