/-
**Run queues as chains** (`include/tern/runtime/run-queue.h`).

`Chain q elems nodes` says that the forward traversal of the queue is `nodes`, and that the elements outside
have no links. Unlike `RunQueue.Holds` it says nothing of the back links: `pop_front`, `push_front` and
`erase` do not keep them up to date.

* `writeNext_fields`, `erase_fields`, `pushBack_next` and the others — what each operation writes.
* `Chain.isIn_iff` — `in` is right for all elements exactly when the last of at least two has a back link.
* `Chain.pushBack`, `Chain.pushFront`, `Chain.insertYield`, `Chain.popFront` — the operations on a chain.
* `insertYieldLoop_steps` — where the loop of `insert_yield` stops: `yieldPosition` reads it off the
  `last_yield` fields.
-/

import MinSmt.Scheduler.RunQueue

namespace MinSmt

open MinSmt.Library

/-- A pointer to an element object: the number of its allocation. -/
abbrev ElemId := Nat

namespace RunQueue

/-- `run_queue::push_front`. -/
def pushFront (q : RunQueue) (elems : Elems) (elem : ElemId) : Elems × RunQueue :=
  match q.head with
  | none =>
    (elems, { q with head := some elem, tail := some elem, numElements := q.numElements + 1 })
  | some head =>
    (Function.update elems elem { elems elem with next := some head },
      { q with head := some elem, numElements := q.numElements + 1 })

/-- `if (at != NULL) at->next = next`. -/
def writeNext (elems : Elems) (place next : Option ElemId) : Elems :=
  match place with
  | some elem => Function.update elems elem { elems elem with next := next }
  | none => elems

/-- `if (at != NULL) at->prev = prev`. -/
def writePrev (elems : Elems) (place prev : Option ElemId) : Elems :=
  match place with
  | some elem => Function.update elems elem { elems elem with prev := prev }
  | none => elems

/-- `run_queue::erase`; the position is the element that the iterator holds, `none` for `end()`. The result
is the iterator to the next element. -/
def erase (q : RunQueue) (elems : Elems) : Option ElemId → (Elems × RunQueue) × Option ElemId
  | none => ((elems, q), none)
  | some cur =>
    let ret := (elems cur).next
    let elems := writeNext elems (elems cur).prev (elems cur).next
    let elems := writePrev elems (elems cur).next (elems cur).prev
    let head := if q.head = some cur then (elems cur).next else q.head
    let tail := if q.tail = some cur then (elems cur).prev else q.tail
    let elems := Function.update elems cur { elems cur with prev := none, next := none }
    ((elems,
      { head := head
        tail := tail
        numElements := q.numElements - 1
        numYieldElem :=
          if (elems cur).lastYield then (q.numYieldElem + (sizeT - 1)) % sizeT else q.numYieldElem }), ret)

/-! ### What the operations write -/

section Fields

variable (q : RunQueue) (elems : Elems) (elem t : ElemId)

theorem pushBack_next : ((q.pushBack elems elem).1 t).next =
    if q.head.isSome = true ∧ q.tail = some t then some elem else (elems t).next := by
  unfold pushBack
  cases q.head with
  | none => simp
  | some head =>
    cases q.tail with
    | none => by_cases own : t = elem <;> simp [Function.update, own]
    | some last =>
      by_cases own : t = elem <;> by_cases isLast : t = last <;>
        simp_all [Function.update, eq_comm]

theorem pushBack_prev : ((q.pushBack elems elem).1 t).prev =
    if q.head.isSome = true ∧ t = elem then q.tail else (elems t).prev := by
  unfold pushBack
  cases q.head with
  | none => simp
  | some head =>
    cases q.tail with
    | none => by_cases own : t = elem <;> simp [Function.update, own]
    | some last =>
      by_cases own : t = elem <;> by_cases isLast : t = last <;>
        simp_all [Function.update]

theorem pushBack_lastYield : ((q.pushBack elems elem).1 t).lastYield = (elems t).lastYield := by
  unfold pushBack
  cases q.head with
  | none => rfl
  | some head =>
    cases q.tail with
    | none => by_cases own : t = elem <;> simp [Function.update, own]
    | some last =>
      by_cases own : t = elem <;> by_cases isLast : t = last <;>
        simp_all [Function.update]

/-- What `push_back` makes of the queue itself. -/
theorem pushBack_queue : (q.pushBack elems elem).2 =
    { q with
      head := some (q.head.getD elem)
      tail := some elem
      numElements := q.numElements + 1 } := by
  unfold pushBack
  cases isHead : q.head <;> simp

theorem pushFront_fields : ((q.pushFront elems elem).1 t).next =
      (if q.head.isSome = true ∧ t = elem then q.head else (elems t).next) ∧
    ((q.pushFront elems elem).1 t).prev = (elems t).prev ∧
    ((q.pushFront elems elem).1 t).lastYield = (elems t).lastYield := by
  unfold pushFront
  cases q.head with
  | none => simp
  | some head => by_cases own : t = elem <;> simp [Function.update, own]

theorem pushFront_queue : (q.pushFront elems elem).2 =
    { q with
      head := some elem
      tail := if q.head = none then some elem else q.tail
      numElements := q.numElements + 1 } := by
  unfold pushFront
  cases isHead : q.head <;> simp

@[simp] theorem writeNext_fields (place next : Option ElemId) :
    (writeNext elems place next t).next = (if place = some t then next else (elems t).next) ∧
    (writeNext elems place next t).prev = (elems t).prev ∧
    (writeNext elems place next t).lastYield = (elems t).lastYield := by
  cases place with
  | none => simp [writeNext]
  | some elem => by_cases own : t = elem <;> simp [writeNext, Function.update, own, eq_comm]

@[simp] theorem writePrev_fields (place prev : Option ElemId) :
    (writePrev elems place prev t).prev = (if place = some t then prev else (elems t).prev) ∧
    (writePrev elems place prev t).next = (elems t).next ∧
    (writePrev elems place prev t).lastYield = (elems t).lastYield := by
  cases place with
  | none => simp [writePrev]
  | some elem => by_cases own : t = elem <;> simp [writePrev, Function.update, own, eq_comm]

theorem erase_fields (cur : ElemId) : ((q.erase elems (some cur)).1.1 t).next =
      (if t = cur then none else if (elems cur).prev = some t then (elems cur).next else (elems t).next) ∧
    ((q.erase elems (some cur)).1.1 t).prev =
      (if t = cur then none else if (elems cur).next = some t then (elems cur).prev else (elems t).prev) ∧
    ((q.erase elems (some cur)).1.1 t).lastYield = (elems t).lastYield := by
  by_cases own : t = cur
  · simp [erase, own]
  · simp [erase, own]

/-- What `erase` makes of the queue itself. -/
theorem erase_queue (cur : ElemId) : (q.erase elems (some cur)).1.2 =
      { head := if q.head = some cur then (elems cur).next else q.head
        tail := if q.tail = some cur then (elems cur).prev else q.tail
        numElements := q.numElements - 1
        numYieldElem :=
          if (elems cur).lastYield then (q.numYieldElem + (sizeT - 1)) % sizeT else q.numYieldElem } ∧
    (q.erase elems (some cur)).2 = (elems cur).next := by
  simp [erase]

end Fields

/-! ### Chains -/

/-- **The forward traversal of the queue is `nodes`**, and the elements outside have no links. -/
structure Chain (q : RunQueue) (elems : Elems) (nodes : List ElemId) : Prop where
  forward : Forward (fun t => (elems t).next) q.head nodes
  tail_eq : nodes ≠ [] → q.tail = nodes.getLast?
  nodup : nodes.Nodup
  size : q.numElements = nodes.length
  bare : ∀ t, t ∉ nodes → (elems t).prev = none ∧ (elems t).next = none

/-- The last of at least two elements has a back link. -/
def LastLinked (elems : Elems) (nodes : List ElemId) : Prop :=
  2 ≤ nodes.length → ∀ last ∈ nodes.getLast?, (elems last).prev ≠ none

namespace Chain

variable {q : RunQueue} {elems elems' : Elems} {nodes front after : List ElemId} {elem cur : ElemId}

theorem empty (elems : Elems) (bare : ∀ t, (elems t).prev = none ∧ (elems t).next = none) :
    Chain {} elems [] :=
  ⟨rfl, fun nonempty => absurd rfl nonempty, List.nodup_nil, rfl, fun t _ => bare t⟩

/-- Only the links matter. -/
theorem congr (chain : Chain q elems nodes)
    (same : ∀ t, (elems' t).next = (elems t).next ∧ (elems' t).prev = (elems t).prev) :
    Chain q elems' nodes := by
  refine ⟨chain.forward.congr fun t _ => (same t).1, chain.tail_eq, chain.nodup, chain.size, ?_⟩
  intro t outside
  rw [(same t).1, (same t).2]
  exact chain.bare t outside

theorem head_eq (chain : Chain q elems nodes) : q.head = nodes.head? := chain.forward.head

theorem head_isSome (chain : Chain q elems nodes) : q.head.isSome = true ↔ nodes ≠ [] := by
  rw [chain.head_eq]
  cases nodes <;> simp

/-- **What `in` answers is right exactly when the last element has a back link.** -/
theorem isIn_iff (chain : Chain q elems nodes) :
    (∀ t, q.isIn elems t = true ↔ t ∈ nodes) ↔ LastLinked elems nodes := by
  have shape : ∀ t, q.isIn elems t = true ↔ (elems t).prev ≠ none ∨ (elems t).next ≠ none ∨
      (q.head = some t ∧ q.tail = some t) := by
    intro t
    simp [RunQueue.isIn, Option.isSome_iff_ne_none, or_assoc]
  constructor
  · intro right long last isLast noPrev
    obtain ⟨front, rfl⟩ := List.getLast?_eq_some_iff.mp isLast
    rcases (shape last).mp ((right last).mpr (by simp)) with hasPrev | hasNext | ⟨isHead, -⟩
    · exact hasPrev noPrev
    · exact hasNext chain.forward.last_next
    · cases front with
      | nil => simp at long
      | cons first front =>
        have same := chain.head_eq.symm.trans isHead
        obtain rfl : first = last := by simpa using same
        exact (List.nodup_cons.mp chain.nodup).1 (by simp)
  · intro linked t
    rw [shape]
    constructor
    · intro answer
      by_contra outside
      obtain ⟨noPrev, noNext⟩ := chain.bare t outside
      rcases answer with hasPrev | hasNext | ⟨isHead, -⟩
      · exact hasPrev noPrev
      · exact hasNext noNext
      · rw [chain.head_eq] at isHead
        exact outside (List.mem_of_head? isHead)
    · intro inside
      obtain ⟨front, rest, rfl⟩ := List.append_of_mem inside
      cases rest with
      | cons second rest =>
        refine Or.inr (Or.inl ?_)
        rw [chain.forward.next_eq]
        simp
      | nil =>
        cases front with
        | nil => exact Or.inr (Or.inr ⟨chain.head_eq, by simpa using chain.tail_eq (by simp)⟩)
        | cons first front => exact Or.inl (linked (by simp) t List.getLast?_concat)

/-! ### Insertions -/

theorem pushBack (chain : Chain q elems nodes) (fresh : elem ∉ nodes) :
    Chain (q.pushBack elems elem).2 (q.pushBack elems elem).1 (nodes ++ [elem]) ∧
      LastLinked (q.pushBack elems elem).1 (nodes ++ [elem]) := by
  obtain ⟨noPrev, noNext⟩ := chain.bare elem fresh
  have headIff := chain.head_isSome
  refine ⟨⟨?_, fun _ => ?_, ?_, ?_, fun t outside => ?_⟩, fun long last isLast => ?_⟩
  · rw [pushBack_queue]
    rcases List.eq_nil_or_concat nodes with rfl | ⟨front, last, rfl⟩
    · rw [chain.head_eq]
      simp [pushBack_next, chain.head_eq, noNext]
    · rw [List.concat_eq_append] at *
      have isTail : q.tail = some last := by simpa using chain.tail_eq (by simp)
      have notLast : last ≠ elem := fun same => fresh (by simp [same])
      have lastFront : last ∉ front := fun inside =>
        (List.nodup_append.mp chain.nodup).2.2 last inside last (by simp) rfl
      obtain ⟨head, isHead⟩ := Option.isSome_iff_exists.mp (headIff.mpr (by simp))
      have forward := chain.forward
      simp only [isHead] at forward ⊢
      refine forward.pushBack ?_ ?_ fun other inside => ?_
      · simp [pushBack_next, isHead, isTail]
      · simp [pushBack_next, isHead, isTail, notLast, noNext]
      · have notLast' : last ≠ other := fun same => lastFront (same ▸ inside)
        simp [pushBack_next, isHead, isTail, notLast']
  · rw [pushBack_queue]
    simp
  · exact List.nodup_append.mpr ⟨chain.nodup, List.nodup_singleton elem, fun a inside b isElem same =>
      fresh (List.mem_singleton.mp isElem ▸ same ▸ inside)⟩
  · rw [pushBack_queue]
    simp [chain.size]
  · have notElem : t ≠ elem := fun same => outside (by simp [same])
    have inside : t ∉ nodes := fun inside => outside (by simp [inside])
    have notTail : ¬(q.head.isSome = true ∧ q.tail = some t) := fun ⟨hasHead, isTail⟩ => by
      rw [chain.tail_eq (headIff.mp hasHead)] at isTail
      exact inside (List.mem_of_getLast? isTail)
    rw [pushBack_next, pushBack_prev, if_neg notTail, if_neg (fun both => notElem both.2)]
    exact chain.bare t inside
  · obtain rfl : elem = last := by simpa using isLast
    have nonempty : nodes ≠ [] := fun isNil => by simp [isNil] at long
    rw [pushBack_prev, if_pos ⟨headIff.mpr nonempty, rfl⟩, chain.tail_eq nonempty]
    simpa using nonempty

theorem pushFront (chain : Chain q elems nodes) (fresh : elem ∉ nodes) :
    Chain (q.pushFront elems elem).2 (q.pushFront elems elem).1 (elem :: nodes) := by
  obtain ⟨noPrev, noNext⟩ := chain.bare elem fresh
  have fields := pushFront_fields q elems elem
  rw [pushFront_queue]
  refine ⟨⟨rfl, ?_⟩, fun _ => ?_, List.nodup_cons.mpr ⟨fresh, chain.nodup⟩, by simp [chain.size],
    fun t outside => ?_⟩
  · have own : ((q.pushFront elems elem).1 elem).next = q.head := by
      rw [(fields elem).1]
      cases isHead : q.head <;> simp [noNext]
    simp only [own]
    refine chain.forward.congr fun t inside => ?_
    have notElem : t ≠ elem := fun same => fresh (same ▸ inside)
    rw [(fields t).1, if_neg fun both => notElem both.2]
  · cases nodes with
    | nil => simp [chain.head_eq]
    | cons first rest => simp [chain.head_eq, chain.tail_eq]
  · have notElem : t ≠ elem := fun same => outside (by simp [same])
    rw [(fields t).1, (fields t).2.1, if_neg fun both => notElem both.2]
    exact chain.bare t fun inside => outside (by simp [inside])

/-- Linking after a queued element, as the end of `insert_yield` does. -/
theorem linkAfter (chain : Chain q elems (front ++ cur :: after)) (fresh : elem ∉ front ++ cur :: after)
    (yieldCount : Nat) :
    Chain { q with
        tail := if q.tail = some cur then some elem else q.tail
        numElements := q.numElements + 1
        numYieldElem := yieldCount }
      (RunQueue.linkAfter elems cur elem) (front ++ cur :: elem :: after) := by
  have nodup := chain.nodup
  have fields := fun t => linkAfter_fields elems elem t cur
  have isNext : (elems cur).next = after.head? := chain.forward.next_eq
  have notCur : cur ≠ elem := fun same => fresh (by simp [same])
  have curOnce : cur ∉ front ++ after := (List.nodup_middle.mp nodup |> List.nodup_cons.mp).1
  refine ⟨?_, fun _ => ?_, ?_, ?_, fun t outside => ?_⟩
  · refine chain.forward.insertAfter ?_ ?_ fun t inside => ?_
    · rw [(fields cur).1, if_neg notCur, if_pos rfl]
    · rw [(fields elem).1, if_pos rfl]
    · have notElem : t ≠ elem := fun same => fresh (by
        have : t ∈ front ++ after := inside
        simp only [List.mem_append, List.mem_cons] at this ⊢
        rcases this with h | h
        · exact Or.inl (same ▸ h)
        · exact Or.inr (Or.inr (same ▸ h)))
      have notCur' : t ≠ cur := fun same => curOnce (same ▸ inside)
      rw [(fields t).1, if_neg notElem, if_neg notCur']
  · have isTail := chain.tail_eq (by simp)
    cases after with
    | nil => simp [isTail]
    | cons second rest =>
      have notLast : (second :: rest).getLast? ≠ some cur := fun isLast =>
        curOnce (List.mem_append_right front (List.mem_of_getLast? isLast))
      rw [List.getLast?_append_cons, List.getLast?_cons_cons] at isTail
      rw [isTail, if_neg notLast, List.getLast?_append_cons, List.getLast?_cons_cons, List.getLast?_cons_cons]
  · have shuffle : (front ++ cur :: elem :: after).Perm (elem :: (front ++ cur :: after)) := by
      have middle : ((front ++ [cur]) ++ elem :: after).Perm (elem :: ((front ++ [cur]) ++ after)) :=
        List.perm_middle
      simpa using middle
    exact shuffle.nodup_iff.mpr (List.nodup_cons.mpr ⟨fresh, nodup⟩)
  · simp [chain.size, Nat.add_assoc]
  · have notElem : t ≠ elem := fun same => outside (by simp [same])
    have notCur' : t ≠ cur := fun same => outside (by simp [same])
    have notNext : (elems cur).next ≠ some t := fun same => by
      rw [isNext] at same
      exact outside (by simp [List.mem_of_head? same])
    rw [(fields t).1, (fields t).2.1, if_neg notElem, if_neg notCur', if_neg notNext, if_neg notElem]
    refine chain.bare t fun inside => outside ?_
    simp only [List.mem_append, List.mem_cons] at inside ⊢
    tauto

/-- The last of at least two elements still has a back link. -/
theorem lastLinked_linkAfter (chain : Chain q elems (front ++ cur :: after))
    (fresh : elem ∉ front ++ cur :: after) (linked : LastLinked elems (front ++ cur :: after)) :
    LastLinked (RunQueue.linkAfter elems cur elem) (front ++ cur :: elem :: after) := by
  intro _ last isLast
  have isNext : (elems cur).next = after.head? := chain.forward.next_eq
  rw [(linkAfter_fields elems elem last cur).2.1, isNext]
  by_cases atHead : after.head? = some last
  · simp [atHead]
  · rw [if_neg atHead]
    by_cases own : last = elem
    · simp [own]
    · rw [if_neg own]
      cases after with
      | nil =>
        have same : (front ++ [cur, elem]).getLast? = some elem := by simp
        rw [same] at isLast
        exact absurd (Option.some.inj isLast).symm own
      | cons second rest =>
        refine linked (by simp; omega) last ?_
        simpa using isLast

/-- **`insert_yield` of an element that is not queued.** -/
theorem insertYield (chain : Chain q elems nodes) (fresh : elem ∉ nodes) :
    ∃ elems' q', q.insertYield elems elem = some (elems', q') ∧
      Chain q' elems' (insertYielded q.numYieldElem (nodes.map fun t => (elems t).lastYield) nodes elem) ∧
      (LastLinked elems nodes → LastLinked elems'
        (insertYielded q.numYieldElem (nodes.map fun t => (elems t).lastYield) nodes elem)) ∧
      (∀ t, (elems' t).lastYield = (if t = elem then true else (elems t).lastYield) ∧
        ((elems' t).prev = (elems t).prev ∨ ∃ u ∈ elem :: nodes, u ≠ t ∧ (elems' t).prev = some u)) ∧
      q'.numYieldElem = (if nodes = [] then q.numYieldElem else (q.numYieldElem + 1) % sizeT) := by
  have fields := @markYielded_fields elems elem
  have marked : Chain q (markYielded elems elem) nodes :=
    chain.congr fun t => ⟨(fields t).1, (fields t).2.1⟩
  have markedPrev : LastLinked elems nodes → LastLinked (markYielded elems elem) nodes := by
    intro linked long last isLast
    rw [(fields last).2.1]
    exact linked long last isLast
  cases nodes with
  | nil =>
    have noHead : q.head = none := marked.head_eq
    have pushed := (marked.pushBack fresh).1
    rw [RunQueue.pushBack, noHead] at pushed
    exact ⟨_, _, by rw [RunQueue.insertYield, noHead], pushed, fun _ long => absurd long (by simp [insertYielded]),
      fun t => ⟨(fields t).2.2, Or.inl (fields t).2.1⟩, rfl⟩
  | cons head rest =>
    obtain ⟨front, cur, after, cut, result, inserted⟩ := insertYield_stops chain.forward chain.size fresh
    rw [result]
    rw [cut] at marked fresh markedPrev
    refine ⟨_, _, inserted, marked.linkAfter fresh ((q.numYieldElem + 1) % sizeT), fun linked => ?_,
      fun t => ?_, ?_⟩
    · exact marked.lastLinked_linkAfter fresh (markedPrev (cut ▸ linked))
    · have link := linkAfter_fields (markYielded elems elem) elem t cur
      rw [link.2.2, link.2.1, (fields t).2.2]
      refine ⟨rfl, ?_⟩
      by_cases next : (markYielded elems elem cur).next = some t
      · refine Or.inr ⟨elem, by simp, fun same => ?_, if_pos next⟩
        rw [marked.forward.next_eq] at next
        refine fresh (List.mem_append_right _ (List.mem_cons_of_mem cur ?_))
        exact same ▸ List.mem_of_head? next
      · rw [if_neg next]
        by_cases own : t = elem
        · have inside : cur ∈ head :: rest := by
            rw [cut]
            simp
          exact Or.inr ⟨cur, List.mem_cons_of_mem _ inside, fun same => fresh (by simp [← own, same]),
            if_pos own⟩
        · rw [if_neg own]
          exact Or.inl (fields t).2.1
    · simp

/-! ### Removals -/

/-- **`pop_front` of a nonempty queue** removes the first element. -/
theorem popFront (chain : Chain q elems (cur :: nodes)) :
    ∃ elems' q', q.popFront elems = some (elems', q') ∧ Chain q' elems' nodes ∧
      (∀ t, (elems' t).next = (if t = cur then none else (elems t).next) ∧
        (elems' t).prev = (if t = cur then none else (elems t).prev) ∧
        (elems' t).lastYield = (if t = cur then false else (elems t).lastYield)) ∧
      q'.numYieldElem = (if (elems cur).lastYield then (q.numYieldElem + (sizeT - 1)) % sizeT
        else q.numYieldElem) := by
  have isHead : q.head = some cur := chain.head_eq
  have outside := (List.nodup_cons.mp chain.nodup).1
  have isNext : (elems cur).next = nodes.head? := chain.forward.2.head
  have fields : ∀ t, (Function.update elems cur { elems cur with
      prev := none, next := none, lastYield := false } t).next = (if t = cur then none else (elems t).next) ∧
      (Function.update elems cur { elems cur with
        prev := none, next := none, lastYield := false } t).prev =
        (if t = cur then none else (elems t).prev) ∧
      (Function.update elems cur { elems cur with
        prev := none, next := none, lastYield := false } t).lastYield =
        (if t = cur then false else (elems t).lastYield) := by
    intro t
    by_cases own : t = cur <;> simp [own]
  refine ⟨_, _, by rw [RunQueue.popFront, isHead]; rfl, ⟨?_, fun nonempty => ?_, chain.nodup.of_cons, ?_,
    fun t out => ?_⟩, fields, rfl⟩
  · refine chain.forward.2.congr fun t inside => ?_
    have notCur : t ≠ cur := fun same => outside (same ▸ inside)
    rw [(fields t).1, if_neg notCur]
  · rw [isNext]
    cases nodes with
    | nil => exact absurd rfl nonempty
    | cons second rest => simpa using chain.tail_eq (by simp)
  · simp [chain.size]
  · rw [(fields t).1, (fields t).2.1]
    by_cases own : t = cur
    · simp [own]
    · rw [if_neg own, if_neg own]
      exact chain.bare t (by simp [own, out])

/-- **`erase` of a queued element**, when its back link is that of the element before it, and the first
element has none or is alone. -/
theorem erase (chain : Chain q elems (front ++ cur :: after))
    (first : front = [] → (elems cur).prev = none ∨ (elems cur).next = none)
    (inner : ∀ before ∈ front.getLast?, (elems cur).prev = some before) :
    Chain (q.erase elems (some cur)).1.2 (q.erase elems (some cur)).1.1 (front ++ after) := by
  have fields := fun t => erase_fields q elems t cur
  have isNext : (elems cur).next = after.head? := chain.forward.next_eq
  have distinct := List.nodup_cons.mp (List.nodup_middle.mp chain.nodup)
  -- nothing behind the erased element is what its back link names
  have notBack : ∀ t ∈ after, (elems cur).prev ≠ some t := by
    intro t inside isPrev
    rcases List.eq_nil_or_concat front with rfl | ⟨firsts, before, rfl⟩
    · rcases first rfl with none | alone
      · simp [none] at isPrev
      · rw [isNext, List.head?_eq_none_iff] at alone
        simp [alone] at inside
    · rw [List.concat_eq_append] at *
      obtain rfl : before = t := by
        have isBefore := inner before List.getLast?_concat
        exact Option.some.inj (isBefore.symm.trans isPrev)
      exact (List.nodup_append.mp distinct.2).2.2 before (by simp) before inside rfl
  refine ⟨?_, fun nonempty => ?_, distinct.2, ?_, fun t outside => ?_⟩
  · rw [(erase_queue q elems cur).1]
    rcases List.eq_nil_or_concat front with rfl | ⟨firsts, before, rfl⟩
    · simp only [chain.head_eq, List.nil_append, List.head?_cons, if_pos]
      refine chain.forward.2.congr fun t inside => ?_
      have notCur : t ≠ cur := fun same => distinct.1 (by simp [← same, inside])
      rw [(fields t).1, if_neg notCur, if_neg (notBack t inside)]
    · rw [List.concat_eq_append] at *
      have isPrev := inner before List.getLast?_concat
      have beforeCur : before ≠ cur := fun same => distinct.1 (by simp [← same])
      have isHead : q.head ≠ some cur := fun same => by
        rw [chain.head_eq] at same
        cases firsts with
        | nil => exact beforeCur (by simpa using same)
        | cons head firsts =>
          obtain rfl : head = cur := by simpa using same
          exact distinct.1 (by simp)
      simp only [if_neg isHead]
      have forward := chain.forward
      rw [List.append_assoc, List.singleton_append] at forward ⊢
      refine forward.remove ?_ fun t inside => ?_
      · rw [(fields before).1, if_neg beforeCur, if_pos isPrev]
      · have notCur : t ≠ cur := fun same => distinct.1 (by
          rcases List.mem_append.mp inside with h | h <;> simp [← same, h])
        have notBefore : before ≠ t := fun same => by
          have once := List.nodup_cons.mp (List.nodup_middle.mp
            (by simpa using distinct.2 : (firsts ++ before :: after).Nodup))
          exact once.1 (same ▸ inside)
        rw [(fields t).1, if_neg notCur, isPrev, if_neg (by simpa using notBefore)]
  · rw [(erase_queue q elems cur).1]
    have isTail := chain.tail_eq (by simp)
    cases after with
    | nil =>
      obtain ⟨firsts, before, rfl⟩ : ∃ firsts before, front = firsts ++ [before] := by
        rcases List.eq_nil_or_concat front with rfl | ⟨firsts, before, split⟩
        · exact absurd rfl nonempty
        · exact ⟨firsts, before, by rw [split, List.concat_eq_append]⟩
      rw [List.getLast?_concat] at isTail
      simp [isTail, inner before List.getLast?_concat]
    | cons second rest =>
      rw [List.getLast?_append_cons, List.getLast?_cons_cons] at isTail
      have notCur : q.tail ≠ some cur := fun same => distinct.1 (List.mem_append_right front (by
        rw [isTail] at same
        exact List.mem_of_getLast? same))
      rw [if_neg notCur, isTail, List.getLast?_append_cons]
  · rw [(erase_queue q elems cur).1]
    simp [chain.size]
  · rw [(fields t).1, (fields t).2.1]
    by_cases own : t = cur
    · simp [own]
    · have outside' : t ∉ front ++ cur :: after := by
        simp only [List.mem_append, List.mem_cons] at outside ⊢
        tauto
      have bare := chain.bare t outside'
      have notNext : (elems cur).next ≠ some t := fun same => by
        rw [isNext] at same
        exact outside (List.mem_append_right _ (List.mem_of_head? same))
      rw [if_neg own, if_neg own, if_neg notNext]
      refine ⟨bare.1, ?_⟩
      by_cases isPrev : (elems cur).prev = some t
      · rw [if_pos isPrev]
        rcases List.eq_nil_or_concat front with rfl | ⟨firsts, before, rfl⟩
        · exact (first rfl).resolve_left (by simp [isPrev])
        · rw [List.concat_eq_append] at *
          obtain rfl : before = t :=
            Option.some.inj ((inner before List.getLast?_concat).symm.trans isPrev)
          exact absurd (by simp) outside
      · rw [if_neg isPrev]
        exact bare.2

theorem LastLinked.tail (linked : LastLinked elems (cur :: nodes))
    (same : ∀ t ∈ nodes, (elems' t).prev = (elems t).prev) : LastLinked elems' nodes := by
  intro long last isLast
  rw [same last (List.mem_of_getLast? isLast)]
  refine linked (by simp; omega) last ?_
  cases nodes with
  | nil => simp at long
  | cons second rest => simpa using isLast

end Chain

end RunQueue

end MinSmt
