/-
**The run queue** (`include/tern/runtime/run-queue.h`), at the level of its links.

A thread has one element object, made once by `create_thd_elem`; an element pointer is therefore
written as the tid it was made for, `NULL` as `none`, and the objects live in one store
`Elems = Tid → RunqElem`. Two queues (`runq` and `hp_runq`) may link the same objects, so every
operation takes and returns the store next to the queue.

What the definitions keep of the source:

* `popFront` clears the links of the removed element and **not** the back link of the new head;
* `pushBack` never writes the `next` field of the element it appends;
* `isIn` answers by the link fields, and asks this queue's own `head` and `tail` only for an element
  without links;
* `insertYield` on an empty queue sets `last_yield` but does not count it; `num_yield_elem` is a
  `size_t` and wraps.

`Linked elems q other tids others` is the representation: the two queues hold `tids` and `others`,
share no element, and every element outside both has no links. The operations of either queue keep
it (`Linked.pushBack`, `Linked.popFront`, `Linked.insertYield`), and `Linked.isIn_iff` says what the
membership test answers when two queues share their elements.
-/

import MinSmt.Library.LinkedQueue
import Mathlib.Logic.Function.Basic
import Mathlib.Tactic.Common

namespace MinSmt

open MinSmt.Library

/-- The internal thread id. -/
abbrev Tid := Nat

/-- `MAX_THREAD_NUM`, the length of the arrays that are indexed by thread. -/
def maxThreadNum : Nat := 5000

/-- `run_queue::THD_STATUS`. -/
inductive ThdStatus
  | runnable
  | runningReg
  | runningInterPro
  | interProStop
  deriving DecidableEq, Repr

/-- `run_queue::runq_elem`; the spin lock is implicit in the atomicity of the steps that take it. -/
structure RunqElem where
  status : ThdStatus := .runnable
  prev : Option Tid := none
  next : Option Tid := none
  lastYield : Bool := false
  deriving DecidableEq, Repr

/-- The element objects, by the tid they were made for. -/
abbrev Elems := Tid → RunqElem

/-- `run_queue`, without the element objects themselves. -/
structure RunQueue where
  head : Option Tid := none
  tail : Option Tid := none
  numElements : Nat := 0
  numYieldElem : Nat := 0
  deriving DecidableEq, Repr

/-- `size_t` has 64 bits. -/
def sizeT : Nat := 18446744073709551616

/-- Write the status of one element. -/
def setStatus (elems : Elems) (tid : Tid) (status : ThdStatus) : Elems :=
  Function.update elems tid { elems tid with status := status }

/-- `elem->last_yield = true`. -/
def markYielded (elems : Elems) (tid : Tid) : Elems :=
  Function.update elems tid { elems tid with lastYield := true }

namespace RunQueue

/-- `run_queue::empty`. -/
def empty (q : RunQueue) : Bool := q.numElements == 0

/-- `run_queue::push_back`. -/
def pushBack (q : RunQueue) (elems : Elems) (tid : Tid) : Elems × RunQueue :=
  match q.head with
  | none =>
    (elems, { q with head := some tid, tail := some tid, numElements := q.numElements + 1 })
  | some _ =>
    let elems := Function.update elems tid { elems tid with prev := q.tail }
    let elems := match q.tail with
      | some last => Function.update elems last { elems last with next := some tid }
      | none => elems
    (elems, { q with tail := some tid, numElements := q.numElements + 1 })

/-- `run_queue::pop_front`; `none` is the null dereference on an empty queue. -/
def popFront (q : RunQueue) (elems : Elems) : Option (Elems × RunQueue) :=
  q.head.map fun tid =>
    let elem := elems tid
    (Function.update elems tid { elem with prev := none, next := none, lastYield := false },
      { head := elem.next
        tail := if elem.next = none then none else q.tail
        numElements := q.numElements - 1
        numYieldElem :=
          if elem.lastYield then (q.numYieldElem + (sizeT - 1)) % sizeT else q.numYieldElem })

/-- The loop of `run_queue::insert_yield`: the element to insert after. Running out of `fuel` stands
for a loop that does not end. -/
def insertYieldLoop (elems : Elems) (numYieldElem : Nat) : Nat → Tid → Nat → Bool → Option Tid
  | 0, _, _, _ => none
  | fuel + 1, cur, count, nonYieldFound =>
    match (elems cur).next with
    | none => some cur
    | some next =>
      if count < numYieldElem ∨ nonYieldFound = false then
        if (elems next).lastYield then
          insertYieldLoop elems numYieldElem fuel next (count + 1) nonYieldFound
        else insertYieldLoop elems numYieldElem fuel next count true
      else some cur

/-- Link `tid` after `cur`, as the end of `run_queue::insert_yield` does. -/
def linkAfter (elems : Elems) (cur tid : Tid) : Elems :=
  let nextToCur := (elems cur).next
  let elems := Function.update elems cur { elems cur with next := some tid }
  let elems := Function.update elems tid { elems tid with prev := some cur, next := nextToCur }
  match nextToCur with
  | some next => Function.update elems next { elems next with prev := some tid }
  | none => elems

/-- `run_queue::insert_yield`. -/
def insertYield (q : RunQueue) (elems : Elems) (tid : Tid) : Option (Elems × RunQueue) :=
  let elems := markYielded elems tid
  match q.head with
  | none =>
    some (elems, { q with head := some tid, tail := some tid, numElements := q.numElements + 1 })
  | some head =>
    let yielded := (elems head).lastYield
    (insertYieldLoop elems q.numYieldElem q.numElements head (if yielded then 1 else 0)
        (!yielded)).map fun cur =>
      (linkAfter elems cur tid,
        { q with
          tail := if q.tail = some cur then some tid else q.tail
          numElements := q.numElements + 1
          numYieldElem := (q.numYieldElem + 1) % sizeT })

/-- `run_queue::in`. -/
def isIn (q : RunQueue) (elems : Elems) (tid : Tid) : Bool :=
  (elems tid).prev.isSome || (elems tid).next.isSome || (q.head == some tid && q.tail == some tid)

/-- `push_back` writes links only. -/
@[simp] theorem pushBack_status (elems : Elems) (q : RunQueue) (tid t : Tid) :
    ((q.pushBack elems tid).1 t).status = (elems t).status := by
  unfold pushBack
  cases q.head with
  | none => rfl
  | some head =>
    cases q.tail with
    | none => by_cases same : t = tid <;> simp [Function.update, same]
    | some last =>
      by_cases same : t = tid <;> by_cases isLast : t = last <;>
        simp_all [Function.update]

/-- `push_back` writes the appended element and the old last one. -/
theorem pushBack_of_ne {elems : Elems} {q : RunQueue} {tid t : Tid} (different : t ≠ tid)
    (notTail : q.tail ≠ some t) : (q.pushBack elems tid).1 t = elems t := by
  unfold pushBack
  cases q.head with
  | none => rfl
  | some head =>
    cases isTail : q.tail with
    | none => exact Function.update_of_ne different _ _
    | some last =>
      have notLast : t ≠ last := fun same => notTail (by rw [isTail, same])
      show Function.update (Function.update elems tid _) last _ t = elems t
      rw [Function.update_of_ne notLast, Function.update_of_ne different]

/-- The three writes touch `cur`, the new element and the one that was after `cur`. -/
theorem linkAfter_fields (elems : Elems) (elem t cur : Tid) : (linkAfter elems cur elem t).next =
      (if t = elem then (elems cur).next else if t = cur then some elem else (elems t).next) ∧
    (linkAfter elems cur elem t).prev =
      (if (elems cur).next = some t then some elem else if t = elem then some cur else (elems t).prev) ∧
    (linkAfter elems cur elem t).lastYield = (elems t).lastYield := by
  unfold linkAfter
  cases (elems cur).next with
  | none =>
    by_cases own : t = elem <;> by_cases isCur : t = cur <;> simp_all [Function.update]
  | some next =>
    by_cases own : t = elem <;> by_cases isCur : t = cur <;> by_cases isNext : t = next <;>
      simp_all [Function.update, eq_comm]

/-- Linking writes no status. -/
theorem linkAfter_status (elems : Elems) (elem t cur : Tid) :
    (linkAfter elems cur elem t).status = (elems t).status := by
  unfold linkAfter
  cases (elems cur).next with
  | none =>
    by_cases own : t = elem <;> by_cases isCur : t = cur <;> simp_all [Function.update]
  | some next =>
    by_cases own : t = elem <;> by_cases isCur : t = cur <;> by_cases isNext : t = next <;>
      simp_all [Function.update]

/-! ### Where `insert_yield` inserts -/

/-- How many elements the loop of `insert_yield` goes on over; the list is the `last_yield` fields of the
elements after `cur`. -/
def yieldSteps (numYieldElem : Nat) : Nat → Bool → List Bool → Nat
  | _, _, [] => 0
  | count, nonYieldFound, yielded :: rest =>
    if count < numYieldElem ∨ nonYieldFound = false then
      (if yielded then yieldSteps numYieldElem (count + 1) nonYieldFound rest
        else yieldSteps numYieldElem count true rest) + 1
    else 0

/-- The position at which `insert_yield` inserts into a queue with these `last_yield` fields. -/
def yieldPosition (numYieldElem : Nat) : List Bool → Nat
  | [] => 0
  | head :: rest => yieldSteps numYieldElem (if head then 1 else 0) (!head) rest + 1

/-- The element put at that position. -/
def insertYielded {α : Type*} (numYieldElem : Nat) (flags : List Bool) (items : List α) (item : α) : List α :=
  items.take (yieldPosition numYieldElem flags) ++ item :: items.drop (yieldPosition numYieldElem flags)

section Position

@[simp] theorem mem_insertYielded {α : Type*} (numYieldElem : Nat) (flags : List Bool) (items : List α)
    (item other : α) :
    other ∈ insertYielded numYieldElem flags items item ↔ other = item ∨ other ∈ items := by
  have halves := List.take_append_drop (yieldPosition numYieldElem flags) items
  constructor
  · intro inside
    rcases List.mem_append.mp inside with first | second
    · exact Or.inr (List.mem_of_mem_take first)
    · rcases List.mem_cons.mp second with same | second
      · exact Or.inl same
      · exact Or.inr (List.mem_of_mem_drop second)
  · rintro (rfl | inside)
    · simp [insertYielded]
    · rw [← halves] at inside
      rcases List.mem_append.mp inside with first | second
      · exact List.mem_append_left _ first
      · exact List.mem_append_right _ (List.mem_cons_of_mem _ second)

theorem map_insertYielded {α β : Type*} (numYieldElem : Nat) (flags : List Bool) (items : List α) (item : α)
    (f : α → β) : (insertYielded numYieldElem flags items item).map f =
      insertYielded numYieldElem flags (items.map f) (f item) := by
  simp [insertYielded, List.map_take, List.map_drop]

theorem insertYielded_perm {α : Type*} (numYieldElem : Nat) (flags : List Bool) (items : List α) (item : α) :
    (insertYielded numYieldElem flags items item).Perm (item :: items) := by
  refine List.perm_middle.trans ?_
  rw [List.take_append_drop]

variable {elems : Elems} {elem cur : Tid} {after : List Tid}

/-- **The loop of `insert_yield` ends**, at the element that many steps on. -/
theorem insertYieldLoop_steps (numYieldElem : Nat) {fuel : Nat} {start : Option Tid}
    (forward : Forward (fun t => (elems t).next) start (cur :: after)) (enough : after.length < fuel)
    (count : Nat) (nonYieldFound : Bool) :
    insertYieldLoop elems numYieldElem fuel cur count nonYieldFound =
      (cur :: after)[yieldSteps numYieldElem count nonYieldFound (after.map fun t => (elems t).lastYield)]? := by
  induction after generalizing fuel start cur count nonYieldFound with
  | nil =>
    obtain ⟨fuel, rfl⟩ := Nat.exists_eq_add_of_lt enough
    have noNext : (elems cur).next = none := forward.2
    rw [show [].length + fuel + 1 = fuel + 1 by simp, insertYieldLoop, noNext]
    rfl
  | cons next after ih =>
    obtain ⟨fuel, rfl⟩ : ∃ less, fuel = less + 1 := ⟨fuel - 1, by
      rw [List.length_cons] at enough
      omega⟩
    have isNext : (elems cur).next = some next := forward.2.1
    have inner := @ih next fuel _ forward.2 (by simpa using enough)
    simp only [insertYieldLoop, isNext, List.map_cons, yieldSteps]
    by_cases go : count < numYieldElem ∨ nonYieldFound = false
    · rw [if_pos go, if_pos go]
      by_cases yielded : (elems next).lastYield = true
      · rw [if_pos yielded, if_pos yielded, inner, List.getElem?_cons_succ]
      · rw [if_neg yielded, if_neg yielded, inner, List.getElem?_cons_succ]
    · rw [if_neg go, if_neg go]
      rfl

theorem yieldSteps_le (numYieldElem count : Nat) (nonYieldFound : Bool) (flags : List Bool) :
    yieldSteps numYieldElem count nonYieldFound flags ≤ flags.length := by
  induction flags generalizing count nonYieldFound with
  | nil => exact Nat.le_refl 0
  | cons yielded rest ih =>
    have first := ih (count + 1) nonYieldFound
    have second := ih count true
    simp only [yieldSteps, List.length_cons]
    split_ifs <;> omega

theorem markYielded_fields (t : Tid) : (markYielded elems elem t).next = (elems t).next ∧
    (markYielded elems elem t).prev = (elems t).prev ∧
    (markYielded elems elem t).lastYield = (if t = elem then true else (elems t).lastYield) := by
  by_cases own : t = elem
  · subst own
    simp [markYielded]
  · simp [markYielded, own]

/-- **Where `insert_yield` links the new element**: after the one at which its loop stops. -/
theorem insertYield_stops {q : RunQueue} {head : Tid} {rest : List Tid}
    (forward : Forward (fun t => (elems t).next) q.head (head :: rest))
    (size : q.numElements = (head :: rest).length) (fresh : elem ∉ head :: rest) :
    ∃ front cur after, head :: rest = front ++ cur :: after ∧
      insertYielded q.numYieldElem ((head :: rest).map fun t => (elems t).lastYield) (head :: rest) elem =
        front ++ cur :: elem :: after ∧
      q.insertYield elems elem = some (linkAfter (markYielded elems elem) cur elem,
        { q with
          tail := if q.tail = some cur then some elem else q.tail
          numElements := q.numElements + 1
          numYieldElem := (q.numYieldElem + 1) % sizeT }) := by
  have fields := @markYielded_fields elems elem
  have marked : Forward (fun t => (markYielded elems elem t).next) q.head (head :: rest) :=
    forward.congr fun t _ => (fields t).1
  have flags : ∀ t ∈ head :: rest, (markYielded elems elem t).lastYield = (elems t).lastYield := by
    intro t inside
    have notElem : t ≠ elem := fun same => fresh (same ▸ inside)
    rw [(fields t).2.2, if_neg notElem]
  have enough : rest.length < q.numElements := by
    rw [size]
    exact Nat.lt_succ_self _
  have found := insertYieldLoop_steps q.numYieldElem marked enough
    (if (markYielded elems elem head).lastYield then 1 else 0) (!(markYielded elems elem head).lastYield)
  rw [flags head (by simp), List.map_congr_left fun t inside => flags t (by simp [inside])] at found
  generalize stop : yieldSteps q.numYieldElem (if (elems head).lastYield then 1 else 0)
    (!(elems head).lastYield) (rest.map fun t => (elems t).lastYield) = steps at found
  have small : steps < (head :: rest).length := by
    have bound := yieldSteps_le q.numYieldElem (if (elems head).lastYield then 1 else 0)
      (!(elems head).lastYield) (rest.map fun t => (elems t).lastYield)
    rw [stop, List.length_map] at bound
    exact Nat.lt_succ_of_le bound
  rw [List.getElem?_eq_getElem small] at found
  refine ⟨(head :: rest).take steps, (head :: rest)[steps], (head :: rest).drop (steps + 1), ?_, ?_, ?_⟩
  · rw [List.getElem_cons_drop, List.take_append_drop]
  · rw [insertYielded, List.map_cons, yieldPosition, stop, List.take_succ_eq_append_getElem small,
      List.append_assoc]
    rfl
  · rw [insertYield, forward.1]
    simp only [flags head (by simp), found]
    rfl

end Position

/-! ### The representation -/

/-- **The queue holds exactly these tids, in this order.** -/
structure Holds (q : RunQueue) (elems : Elems) (tids : List Tid) : Prop where
  queue : IsQueue (fun t => (elems t).next) (fun t => (elems t).prev) q.head q.tail tids
  size : q.numElements = tids.length

namespace Holds

variable {q : RunQueue} {elems elems' : Elems} {tids : List Tid}

theorem congr (holds : q.Holds elems tids)
    (same : ∀ t ∈ tids, (elems' t).next = (elems t).next ∧ (elems' t).prev = (elems t).prev) :
    q.Holds elems' tids :=
  ⟨holds.queue.congr (fun t member => (same t member).1) (fun t member => (same t member).2),
    holds.size⟩

theorem head_eq (holds : q.Holds elems tids) : q.head = tids.head? := holds.queue.head_eq

theorem empty_iff (holds : q.Holds elems tids) : q.empty = true ↔ tids = [] := by
  rw [RunQueue.empty, beq_iff_eq, holds.size, List.length_eq_zero_iff]

theorem forward (holds : q.Holds elems tids) :
    Forward (fun t => (elems t).next) q.head tids := holds.queue.forward

section LinkAfter

variable {front after : List Tid} {last : Tid}

/-- The links after an element was linked behind a queued one. -/
theorem linkAfter_links (holds : q.Holds elems (front ++ last :: after)) (tid t : Tid) :
    ((RunQueue.linkAfter elems last tid) t).next =
      (if t = tid then (elems last).next else if t = last then some tid else (elems t).next) ∧
    ((RunQueue.linkAfter elems last tid) t).prev =
      (if some t = after.head? then some tid else if t = tid then some last else (elems t).prev) := by
  have fields := RunQueue.linkAfter_fields elems tid t last
  have nextOf : (elems last).next = after.head? := holds.forward.next_eq
  rw [nextOf] at fields ⊢
  exact ⟨fields.1, by simpa only [eq_comm (a := some t)] using fields.2.1⟩

/-- **Linking after a queued element.** -/
theorem linkAfter (holds : q.Holds elems (front ++ last :: after)) {tid : Tid}
    (fresh : tid ∉ front ++ last :: after) (yieldCount : Nat) :
    Holds
      { q with
        tail := if q.tail = some last then some tid else q.tail
        numElements := q.numElements + 1
        numYieldElem := yieldCount }
      (RunQueue.linkAfter elems last tid) (front ++ last :: tid :: after) := by
  have links := holds.linkAfter_links tid
  have nodup := holds.queue.nodup
  have notLast : tid ≠ last := fun same => fresh (by simp [same])
  have headInside : ∀ t, some t = after.head? → t ∈ after := fun t same =>
    List.mem_of_head? same.symm
  refine ⟨holds.queue.insertAfter fresh ?_ ?_ ?_ ?_ ?_ ?_, by simp [holds.size, Nat.add_assoc]⟩
  · show ((RunQueue.linkAfter elems last tid) last).next = _
    rw [(links last).1, if_neg notLast.symm, if_pos rfl]
  · show ((RunQueue.linkAfter elems last tid) tid).next = _
    rw [(links tid).1, if_pos rfl]
  · intro t inside
    have isTid : t ≠ tid := fun same => fresh (by
      rcases List.mem_append.mp inside with h | h <;> simp [← same, h])
    have isLast : t ≠ last := fun same => by
      rcases List.mem_append.mp inside with h | h
      · exact (List.nodup_append.mp nodup).2.2 t h last (by simp) same
      · exact (List.nodup_cons.mp (List.nodup_append.mp nodup).2.1).1 (same ▸ h)
    show ((RunQueue.linkAfter elems last tid) t).next = _
    rw [(links t).1, if_neg isTid, if_neg isLast]
  · show ((RunQueue.linkAfter elems last tid) tid).prev = _
    rw [(links tid).2, if_neg (fun same => fresh (by simp [headInside tid same])), if_pos rfl]
  · intro t isHead
    show ((RunQueue.linkAfter elems last tid) t).prev = _
    rw [(links t).2, if_pos (Option.mem_def.mp isHead).symm]
  · intro t inside
    have isTid : t ≠ tid := fun same => fresh (by
      rcases List.mem_append.mp inside with h | h
      · simp [← same, h]
      · rcases List.mem_cons.mp h with h | h
        · simp [← same, h]
        · simp [← same, List.mem_of_mem_tail h])
    have notHead : some t ≠ after.head? := fun isHead => by
      cases after with
      | nil => cases isHead
      | cons second rest =>
        obtain rfl : t = second := Option.some.inj isHead
        have parts := List.nodup_append.mp nodup
        rcases List.mem_append.mp inside with h | h
        · exact parts.2.2 t h t (by simp) rfl
        · rcases List.mem_cons.mp h with h | h
          · exact (List.nodup_cons.mp parts.2.1).1 (by simp [h])
          · exact (List.nodup_cons.mp (List.nodup_cons.mp parts.2.1).2).1 h
    show ((RunQueue.linkAfter elems last tid) t).prev = _
    rw [(links t).2, if_neg notHead, if_neg isTid]

end LinkAfter

end Holds

end RunQueue

/-! ### Two queues over one store of elements -/

/-- **The representation of two run queues that share their elements.** -/
structure Linked (elems : Elems) (q other : RunQueue) (tids others : List Tid) : Prop where
  queue : q.Holds elems tids
  second : other.Holds elems others
  apart : ∀ t ∈ tids, t ∉ others
  unlinked : ∀ t, t ∉ tids → t ∉ others → (elems t).prev = none ∧ (elems t).next = none

namespace Linked

variable {elems elems' : Elems} {q q' other : RunQueue} {tids others : List Tid} {tid : Tid}

theorem symm (linked : Linked elems q other tids others) : Linked elems other q others tids :=
  ⟨linked.second, linked.queue, fun t member inside => linked.apart t inside member,
    fun t outside inside => linked.unlinked t inside outside⟩

/-- Fields other than the links do not matter. -/
theorem congr (linked : Linked elems q other tids others)
    (same : ∀ t, (elems' t).next = (elems t).next ∧ (elems' t).prev = (elems t).prev) :
    Linked elems' q other tids others := by
  refine ⟨linked.queue.congr fun t _ => same t, linked.second.congr fun t _ => same t,
    linked.apart, fun t outside outside' => ?_⟩
  rw [(same t).1, (same t).2]
  exact linked.unlinked t outside outside'

theorem setStatus (linked : Linked elems q other tids others) (t : Tid) (status : ThdStatus) :
    Linked (setStatus elems t status) q other tids others := by
  refine linked.congr fun u => ?_
  by_cases same : u = t
  · subst same
    simp [MinSmt.setStatus]
  · simp [MinSmt.setStatus, Function.update_of_ne same]

theorem head_none_iff (linked : Linked elems q other tids others) : q.head = none ↔ tids = [] :=
  linked.queue.queue.head_none_iff

/-- **`push_back` of an element that neither queue holds.** -/
theorem pushBack (linked : Linked elems q other tids others) (fresh : tid ∉ tids)
    (fresh' : tid ∉ others) :
    Linked (q.pushBack elems tid).1 (q.pushBack elems tid).2 other
      (tids ++ [tid]) others := by
  obtain ⟨noPrev, noNext⟩ := linked.unlinked tid fresh fresh'
  have apart : ∀ t ∈ tids ++ [tid], t ∉ others := by
    intro t member
    rcases List.mem_append.mp member with inside | inside
    · exact linked.apart t inside
    · rw [List.mem_singleton.mp inside]
      exact fresh'
  rcases List.eq_nil_or_concat tids with rfl | ⟨front, last, rfl⟩
  · have noHead : q.head = none := linked.head_none_iff.mpr rfl
    unfold RunQueue.pushBack
    rw [noHead]
    refine ⟨⟨IsQueue.single noNext, ?_⟩, linked.second, apart, fun t outside outside' => ?_⟩
    · show q.numElements + 1 = 1
      rw [linked.queue.size, List.length_nil]
    · exact linked.unlinked t (by simp) outside'
  · rw [List.concat_eq_append] at *
    have someHead : q.head ≠ none := fun noHead => by
      simpa using linked.head_none_iff.mp noHead
    obtain ⟨head, isHead⟩ := Option.ne_none_iff_exists'.mp someHead
    have isTail : q.tail = some last := by
      rw [linked.queue.queue.tail_eq]
      simp
    have different : tid ≠ last := fun same => fresh (by simp [same])
    have nodup := linked.queue.queue.nodup
    have lastFront : last ∉ front := fun inside =>
      (List.nodup_append.mp nodup).2.2 last inside last (by simp) rfl
    unfold RunQueue.pushBack
    simp only [isHead, isTail]
    refine ⟨⟨?_, ?_⟩, ?_, apart, ?_⟩
    · have queue := linked.queue.queue
      rw [isHead] at queue
      refine queue.pushBack fresh ?_ ?_ ?_ ?_ ?_
      · simp
      · simpa [Function.update_of_ne different] using noNext
      · intro t inside
        have notLast : t ≠ last := fun same => lastFront (same ▸ inside)
        have notTid : t ≠ tid := fun same => fresh (by simp [← same, inside])
        simp [Function.update_of_ne notLast, Function.update_of_ne notTid]
      · simp [Function.update_of_ne different]
      · intro t inside
        have notTid : t ≠ tid := fun same => fresh (same ▸ inside)
        by_cases same : t = last
        · subst same
          simp [Function.update_of_ne notTid]
        · simp [Function.update_of_ne same, Function.update_of_ne notTid]
    · simp [linked.queue.size]
    · refine linked.second.congr fun t inside => ?_
      have notLast : t ≠ last := fun same => linked.apart last (by simp) (same ▸ inside)
      have notTid : t ≠ tid := fun same => fresh' (same ▸ inside)
      simp [Function.update_of_ne notLast, Function.update_of_ne notTid]
    · intro t outside outside'
      have notLast : t ≠ last := fun same => outside (by simp [same])
      have notTid : t ≠ tid := fun same => outside (by simp [same])
      simp only [Function.update_of_ne notLast, Function.update_of_ne notTid]
      exact linked.unlinked t (fun inside => outside (List.mem_append_left _ inside)) outside'

/-- **`pop_front` of a nonempty queue** removes the first tid and leaves it without links. -/
theorem popFront (linked : Linked elems q other (tid :: tids) others) :
    ∃ elems' q', q.popFront elems = some (elems', q') ∧
      Linked elems' q' other tids others ∧ ∀ t, (elems' t).status = (elems t).status := by
  have isHead : q.head = some tid := by rw [linked.queue.head_eq, List.head?_cons]
  have nodup := linked.queue.queue.nodup
  have notInside : tid ∉ tids := (List.nodup_cons.mp nodup).1
  have notOther : tid ∉ others := linked.apart tid List.mem_cons_self
  refine ⟨_, _, by rw [RunQueue.popFront, isHead]; rfl, ⟨⟨?_, ?_⟩, ?_, ?_, ?_⟩, ?_⟩
  · have queue := linked.queue.queue
    refine queue.popFront (fun t inside => ?_) fun t inside => ?_
    all_goals
      have notTid : t ≠ tid := fun same => notInside (same ▸ inside)
      simp [Function.update_of_ne notTid]
  · simp [linked.queue.size]
  · refine linked.second.congr fun t inside => ?_
    have notTid : t ≠ tid := fun same => notOther (same ▸ inside)
    simp [Function.update_of_ne notTid]
  · exact fun t inside => linked.apart t (List.mem_cons_of_mem _ inside)
  · intro t outside outside'
    by_cases same : t = tid
    · subst same
      simp
    · simp only [Function.update_of_ne same]
      exact linked.unlinked t (by simp [same, outside]) outside'
  · intro t
    by_cases same : t = tid
    · subst same
      simp
    · simp [Function.update_of_ne same]

/-- **What `in` answers when two queues share their elements**: true for the elements of this queue
and for those of the other queue that have a link. -/
theorem isIn_iff (linked : Linked elems q other tids others) :
    q.isIn elems tid = true ↔
      tid ∈ tids ∨ (tid ∈ others ∧ ((elems tid).prev ≠ none ∨ (elems tid).next ≠ none)) := by
  have shape : q.isIn elems tid = true ↔ (elems tid).prev ≠ none ∨ (elems tid).next ≠ none ∨
      (q.head = some tid ∧ q.tail = some tid) := by
    simp [RunQueue.isIn, Option.isSome_iff_ne_none, or_assoc]
  rw [shape]
  constructor
  · intro answer
    by_cases inside : tid ∈ tids
    · exact Or.inl inside
    · by_cases inside' : tid ∈ others
      · rcases answer with hasPrev | hasNext | ⟨isHead, _⟩
        · exact Or.inr ⟨inside', Or.inl hasPrev⟩
        · exact Or.inr ⟨inside', Or.inr hasNext⟩
        · rw [linked.queue.head_eq] at isHead
          exact absurd (List.mem_of_head? isHead) inside
      · obtain ⟨noPrev, noNext⟩ := linked.unlinked tid inside inside'
        rcases answer with hasPrev | hasNext | ⟨isHead, _⟩
        · exact absurd noPrev hasPrev
        · exact absurd noNext hasNext
        · rw [linked.queue.head_eq] at isHead
          exact absurd (List.mem_of_head? isHead) inside
  · rintro (inside | ⟨_, hasPrev | hasNext⟩)
    · exact linked.queue.queue.linked inside
    · exact Or.inl hasPrev
    · exact Or.inr (Or.inl hasNext)

/-- Linking after a queued element, on the two-queue representation. -/
theorem linkAfter {front after : List Tid} {last : Tid}
    (linked : Linked elems q other (front ++ last :: after) others)
    (fresh : tid ∉ front ++ last :: after) (fresh' : tid ∉ others) (yieldCount : Nat) :
    Linked (RunQueue.linkAfter elems last tid)
      { q with
        tail := if q.tail = some last then some tid else q.tail
        numElements := q.numElements + 1
        numYieldElem := yieldCount }
      other (front ++ last :: tid :: after) others := by
  have links := linked.queue.linkAfter_links tid
  have headInside : ∀ t, some t = after.head? → t ∈ after := fun t same =>
    List.mem_of_head? same.symm
  refine ⟨linked.queue.linkAfter fresh yieldCount, ?_, ?_, ?_⟩
  · refine linked.second.congr fun t inside => ?_
    have isTid : t ≠ tid := fun same => fresh' (same ▸ inside)
    have isLast : t ≠ last := fun same => linked.apart last (by simp) (same ▸ inside)
    have notHead : some t ≠ after.head? := fun same =>
      linked.apart t (by simp [headInside t same]) inside
    rw [(links t).1, (links t).2, if_neg isTid, if_neg isLast, if_neg notHead, if_neg isTid]
    exact ⟨rfl, rfl⟩
  · intro t inside
    by_cases isTid : t = tid
    · rw [isTid]
      exact fresh'
    · refine linked.apart t ?_
      simp only [List.mem_append, List.mem_cons, isTid, false_or] at inside ⊢
      exact inside
  · intro t outside outside'
    have isTid : t ≠ tid := fun same => outside (by simp [same])
    have isLast : t ≠ last := fun same => outside (by simp [same])
    have notHead : some t ≠ after.head? := fun same => outside (by simp [headInside t same])
    rw [(links t).1, (links t).2, if_neg isTid, if_neg isLast, if_neg notHead, if_neg isTid]
    refine linked.unlinked t (fun inside => outside ?_) outside'
    simp only [List.mem_append, List.mem_cons] at inside ⊢
    tauto

/-- **`insert_yield` of an element that neither queue holds** puts it at the position its loop selects. -/
theorem insertYield_at (linked : Linked elems q other tids others) (fresh : tid ∉ tids)
    (fresh' : tid ∉ others) :
    ∃ elems' q', q.insertYield elems tid = some (elems', q') ∧
      Linked elems' q' other
        (RunQueue.insertYielded q.numYieldElem (tids.map fun t => (elems t).lastYield) tids tid) others ∧
      ∀ t, (elems' t).status = (elems t).status := by
  have sameLinks : ∀ t, (markYielded elems tid t).next = (elems t).next ∧
      (markYielded elems tid t).prev = (elems t).prev ∧
      (markYielded elems tid t).status = (elems t).status := by
    intro t
    by_cases same : t = tid
    · subst same
      simp [markYielded]
    · simp [markYielded, same]
  have marked := linked.congr fun t => ⟨(sameLinks t).1, (sameLinks t).2.1⟩
  cases tids with
  | nil =>
    have noHead : q.head = none := linked.head_none_iff.mpr rfl
    have pushed := marked.pushBack fresh fresh'
    rw [RunQueue.pushBack, noHead] at pushed
    exact ⟨_, _, by rw [RunQueue.insertYield, noHead], pushed, fun t => (sameLinks t).2.2⟩
  | cons head rest =>
    obtain ⟨front, cur, after, split, result, inserted⟩ :=
      RunQueue.insertYield_stops linked.queue.forward linked.queue.size fresh
    rw [result]
    rw [split] at marked fresh
    refine ⟨_, _, inserted, marked.linkAfter fresh fresh' ((q.numYieldElem + 1) % sizeT), fun t => ?_⟩
    rw [← (sameLinks t).2.2, RunQueue.linkAfter_status]

/-- `insert_yield` puts the element somewhere behind the first one. -/
theorem insertYield (linked : Linked elems q other tids others) (fresh : tid ∉ tids)
    (fresh' : tid ∉ others) :
    ∃ elems' q' tids', q.insertYield elems tid = some (elems', q') ∧
      Linked elems' q' other tids' others ∧ tids'.Perm (tid :: tids) ∧
      (tids ≠ [] → tids'.head? = tids.head?) ∧
      ∀ t, (elems' t).status = (elems t).status := by
  obtain ⟨elems', q', inserted, linked', status⟩ := linked.insertYield_at fresh fresh'
  refine ⟨elems', q', _, inserted, linked', RunQueue.insertYielded_perm .., fun nonempty => ?_, status⟩
  cases tids with
  | nil => exact absurd rfl nonempty
  | cons head rest => rfl

end Linked

end MinSmt
