/-
**An intrusive doubly linked queue, over any type of nodes.**

A queue is a `head` and a `tail`, and the links live in the nodes: `next` and `prev` are two partial
functions on nodes. `IsQueue next prev head tail nodes` says that the queue holds exactly `nodes`, in
that order: the forward traversal from `head` visits them and stops, every node but the first points
back to the one before it, and `tail` is the last one.

**The back link of the first node is not constrained.** A queue whose `popFront` leaves the stale
back link of its new head in place is therefore still a queue, and that is the shape wanted here.

`Forward` alone is a traversal, with the same operations (`Forward.pushBack`, `Forward.insertAfter`,
`Forward.remove`).

The operations are stated by what they do to the links, so that a node may carry other fields:
`IsQueue.congr` (links of the queue's own nodes unchanged), `IsQueue.single`, `IsQueue.pushBack`,
`IsQueue.popFront`, `IsQueue.insertAfter`. `IsQueue.linked` is the membership test by links: a queued
node has a link, or is the whole queue.
-/

import Mathlib.Data.List.Nodup
import Mathlib.Data.List.Basic

namespace MinSmt.Library

variable {α : Type*}

/-! ### Traversals -/

/-- Following `next` from `start` visits exactly these nodes and then stops. -/
def Forward (next : α → Option α) : Option α → List α → Prop
  | start, [] => start = none
  | start, node :: nodes => start = some node ∧ Forward next (next node) nodes

/-- Every node but the first points back to the one before it. -/
def Back (prev : α → Option α) : List α → Prop
  | first :: second :: rest => prev second = some first ∧ Back prev (second :: rest)
  | _ => True

section Traversals

variable {next next' prev prev' : α → Option α}

@[simp] theorem forward_nil {start : Option α} : Forward next start [] ↔ start = none := Iff.rfl

@[simp] theorem forward_cons {start : Option α} {node : α} {nodes : List α} :
    Forward next start (node :: nodes) ↔ start = some node ∧ Forward next (next node) nodes :=
  Iff.rfl

@[simp] theorem back_nil : Back prev [] := trivial

@[simp] theorem back_single {node : α} : Back prev [node] := trivial

@[simp] theorem back_cons_cons {first second : α} {rest : List α} :
    Back prev (first :: second :: rest) ↔ prev second = some first ∧ Back prev (second :: rest) :=
  Iff.rfl

theorem Forward.congr {start : Option α} {nodes : List α} (holds : Forward next start nodes)
    (same : ∀ node ∈ nodes, next' node = next node) : Forward next' start nodes := by
  induction nodes generalizing start with
  | nil => exact holds
  | cons node nodes ih =>
    refine ⟨holds.1, ?_⟩
    rw [same node List.mem_cons_self]
    exact ih holds.2 fun other member => same other (List.mem_cons_of_mem _ member)

theorem Back.congr {nodes : List α} (holds : Back prev nodes)
    (same : ∀ node ∈ nodes, prev' node = prev node) : Back prev' nodes := by
  induction nodes with
  | nil => trivial
  | cons first nodes ih =>
    cases nodes with
    | nil => trivial
    | cons second rest =>
      refine ⟨?_, ih holds.2 fun node member => same node (List.mem_cons_of_mem _ member)⟩
      rw [same second (by simp)]
      exact holds.1

/-- The traversal from a given node is one list. -/
theorem Forward.unique {start : Option α} {nodes other : List α} (holds : Forward next start nodes)
    (also : Forward next start other) : nodes = other := by
  induction nodes generalizing start other with
  | nil =>
    cases other with
    | nil => rfl
    | cons node rest => simp_all
  | cons node nodes ih =>
    cases other with
    | nil => simp_all
    | cons node' rest =>
      obtain rfl : node = node' := Option.some.inj (holds.1.symm.trans also.1)
      rw [ih holds.2 also.2]

theorem Forward.head {start : Option α} {nodes : List α} (holds : Forward next start nodes) :
    start = nodes.head? := by
  cases nodes with
  | nil => exact holds
  | cons node nodes => exact holds.1

/-- A traversal stops after its last node. -/
theorem Forward.last_next {start : Option α} {nodes : List α} {last : α}
    (holds : Forward next start (nodes ++ [last])) : next last = none := by
  induction nodes generalizing start with
  | nil => exact holds.2
  | cons node nodes ih => exact ih holds.2

/-- A traversal visits what follows a visited node. -/
theorem Forward.next_mem {start : Option α} {nodes : List α} {node after : α}
    (holds : Forward next start nodes) (member : node ∈ nodes) (isNext : next node = some after) :
    after ∈ nodes := by
  induction nodes generalizing start with
  | nil => cases member
  | cons first nodes ih =>
    refine List.mem_cons_of_mem _ ?_
    rcases List.mem_cons.mp member with rfl | inside
    · have head := holds.2.head
      rw [isNext] at head
      exact List.mem_of_head? head.symm
    · exact ih holds.2 inside

/-- What a visited node points at. -/
theorem Forward.next_eq {start : Option α} {front rest : List α} {node : α}
    (holds : Forward next start (front ++ node :: rest)) : next node = rest.head? := by
  induction front generalizing start with
  | nil => exact holds.2.head
  | cons first front ih => exact ih holds.2

/-- Appending a node to a traversal. -/
theorem Forward.pushBack {start : Option α} {front : List α} {last node : α}
    (holds : Forward next start (front ++ [last])) (lastNext : next' last = some node)
    (nodeNext : next' node = none) (same : ∀ other ∈ front, next' other = next other) :
    Forward next' start (front ++ [last] ++ [node]) := by
  induction front generalizing start with
  | nil => exact ⟨holds.1, lastNext, nodeNext⟩
  | cons first front ih =>
    refine ⟨holds.1, ?_⟩
    rw [same first List.mem_cons_self]
    exact ih holds.2 fun other member => same other (List.mem_cons_of_mem _ member)

/-- Inserting a node into a traversal. -/
theorem Forward.insertAfter {start : Option α} {front rest : List α} {cur node : α}
    (holds : Forward next start (front ++ cur :: rest)) (curNext : next' cur = some node)
    (nodeNext : next' node = next cur) (same : ∀ other ∈ front ++ rest, next' other = next other) :
    Forward next' start (front ++ cur :: node :: rest) := by
  induction front generalizing start with
  | nil =>
    refine ⟨holds.1, curNext, ?_⟩
    rw [nodeNext]
    exact holds.2.congr same
  | cons first front ih =>
    refine ⟨holds.1, ?_⟩
    rw [same first (by simp)]
    exact ih holds.2 fun other member => same other (by simp_all)

/-- Taking a node that is not the first out of a traversal. -/
theorem Forward.remove {start : Option α} {front rest : List α} {cur node : α}
    (holds : Forward next start (front ++ cur :: node :: rest)) (curNext : next' cur = next node)
    (same : ∀ other ∈ front ++ rest, next' other = next other) :
    Forward next' start (front ++ cur :: rest) := by
  induction front generalizing start with
  | nil =>
    refine ⟨holds.1, ?_⟩
    rw [curNext]
    exact holds.2.2.congr same
  | cons first front ih =>
    refine ⟨holds.1, ?_⟩
    rw [same first (by simp)]
    exact ih holds.2 fun other member => same other (by simp_all)

/-- The first so many nodes that a traversal visits. -/
def walk (next : α → Option α) : Nat → Option α → List α
  | 0, _ => []
  | _ + 1, none => []
  | fuel + 1, some node => node :: walk next fuel (next node)

/-- A traversal is walked in as many steps as it has nodes. -/
theorem Forward.walk_eq {start : Option α} {nodes : List α} (holds : Forward next start nodes) :
    walk next nodes.length start = nodes := by
  induction nodes generalizing start with
  | nil => rfl
  | cons node nodes ih =>
    rw [holds.1, List.length_cons, walk, ih holds.2]

theorem Back.tail {node : α} {nodes : List α} (holds : Back prev (node :: nodes)) :
    Back prev nodes := by
  cases nodes with
  | nil => trivial
  | cons second rest => exact holds.2

end Traversals

/-- One node directly after the other in a list. -/
theorem mem_zip_tail {nodes : List α} {first second : α} :
    (first, second) ∈ nodes.zip nodes.tail ↔
      ∃ front rest, nodes = front ++ first :: second :: rest := by
  induction nodes with
  | nil => simp
  | cons node nodes ih =>
    cases nodes with
    | nil => simp [List.cons_eq_append_iff]
    | cons after rest =>
      rw [List.tail_cons, List.zip_cons_cons, List.mem_cons]
      rw [List.tail_cons] at ih
      constructor
      · rintro (same | later)
        · obtain ⟨rfl, rfl⟩ := Prod.mk.inj same
          exact ⟨[], rest, rfl⟩
        · obtain ⟨front, tail, split⟩ := ih.mp later
          exact ⟨node :: front, tail, by rw [split]; rfl⟩
      · rintro ⟨front, tail, split⟩
        cases front with
        | nil =>
          obtain ⟨rfl, rfl, -⟩ := by simpa using split
          exact Or.inl rfl
        | cons head front => exact Or.inr (ih.mpr ⟨front, tail, (List.cons.inj split).2⟩)

/-! ### The queue -/

/-- **The queue holds exactly these nodes, in this order.** -/
structure IsQueue (next prev : α → Option α) (head tail : Option α) (nodes : List α) : Prop where
  forward : Forward next head nodes
  back : Back prev nodes
  tail_eq : tail = nodes.getLast?
  nodup : nodes.Nodup

namespace IsQueue

variable {next next' prev prev' : α → Option α} {head tail : Option α} {nodes : List α}

theorem empty : IsQueue next prev none none [] := ⟨rfl, trivial, rfl, List.nodup_nil⟩

/-- Only the links of the queue's own nodes matter. -/
theorem congr (queue : IsQueue next prev head tail nodes)
    (sameNext : ∀ node ∈ nodes, next' node = next node)
    (samePrev : ∀ node ∈ nodes, prev' node = prev node) :
    IsQueue next' prev' head tail nodes :=
  ⟨queue.forward.congr sameNext, queue.back.congr samePrev, queue.tail_eq, queue.nodup⟩

theorem head_eq (queue : IsQueue next prev head tail nodes) : head = nodes.head? :=
  queue.forward.head

theorem head_none_iff (queue : IsQueue next prev head tail nodes) : head = none ↔ nodes = [] := by
  rw [queue.head_eq]
  exact List.head?_eq_none_iff

/-- Appending to the empty queue. -/
theorem single {node : α} (last : next' node = none) :
    IsQueue next' prev' (some node) (some node) [node] :=
  ⟨⟨rfl, last⟩, trivial, rfl, List.nodup_singleton node⟩

/-- **Appending to a nonempty queue**: the old last node and the new one are linked. -/
theorem pushBack {front : List α} {last node : α}
    (queue : IsQueue next prev head tail (front ++ [last])) (fresh : node ∉ front ++ [last])
    (lastNext : next' last = some node) (nodeNext : next' node = none)
    (sameNext : ∀ other ∈ front, next' other = next other) (nodePrev : prev' node = some last)
    (samePrev : ∀ other ∈ front ++ [last], prev' other = prev other) :
    IsQueue next' prev' head (some node) (front ++ [last] ++ [node]) := by
  refine ⟨queue.forward.pushBack lastNext nodeNext sameNext, ?_, by simp, ?_⟩
  · have back := queue.back.congr samePrev
    clear queue fresh sameNext samePrev
    induction front with
    | nil => exact ⟨nodePrev, trivial⟩
    | cons first front ih =>
      cases front with
      | nil => exact ⟨back.1, nodePrev, trivial⟩
      | cons second rest => exact ⟨back.1, ih back.2⟩
  · refine List.nodup_append.mpr ⟨queue.nodup, List.nodup_singleton node, ?_⟩
    intro a inside b isNode same
    obtain rfl := List.mem_singleton.mp isNode
    exact fresh (same ▸ inside)

/-- **Removing the first node.** The new head keeps whatever back link it had. -/
theorem popFront {first : α} (queue : IsQueue next prev head tail (first :: nodes))
    (sameNext : ∀ other ∈ nodes, next' other = next other)
    (samePrev : ∀ other ∈ nodes, prev' other = prev other) :
    IsQueue next' prev' (next first) (if next first = none then none else tail) nodes := by
  have forward := queue.forward.2
  refine ⟨forward.congr sameNext, (queue.back.tail).congr samePrev, ?_, queue.nodup.of_cons⟩
  rw [queue.tail_eq]
  cases nodes with
  | nil =>
    rw [if_pos (forward_nil.mp forward)]
    rfl
  | cons second rest =>
    rw [if_neg (by simp [forward.1]), List.getLast?_cons_cons]

/-- **Inserting after a queued node.** -/
theorem insertAfter [DecidableEq α] {front rest : List α} {cur node : α}
    (queue : IsQueue next prev head tail (front ++ cur :: rest))
    (fresh : node ∉ front ++ cur :: rest)
    (curNext : next' cur = some node) (nodeNext : next' node = next cur)
    (sameNext : ∀ other ∈ front ++ rest, next' other = next other)
    (nodePrev : prev' node = some cur)
    (afterPrev : ∀ second ∈ rest.head?, prev' second = some node)
    (samePrev : ∀ other ∈ front ++ cur :: rest.tail, prev' other = prev other) :
    IsQueue next' prev' head (if tail = some cur then some node else tail)
      (front ++ cur :: node :: rest) := by
  have nodup := queue.nodup
  refine ⟨queue.forward.insertAfter curNext nodeNext sameNext, ?_, ?_, ?_⟩
  · have back := queue.back
    clear queue fresh curNext nodeNext sameNext nodup
    induction front with
    | nil =>
      refine ⟨nodePrev, ?_⟩
      cases rest with
      | nil => trivial
      | cons second rest =>
        refine ⟨afterPrev second rfl, ?_⟩
        have tail := back.tail
        cases rest with
        | nil => trivial
        | cons third rest =>
          refine ⟨?_, tail.2.congr fun other member => samePrev other (by simp_all)⟩
          rw [samePrev third (by simp)]
          exact tail.1
    | cons first front ih =>
      have inner := ih (fun other member => samePrev other (by simp_all)) back.tail
      cases front with
      | nil =>
        refine ⟨?_, inner⟩
        rw [samePrev cur (by simp)]
        exact back.1
      | cons second front =>
        refine ⟨?_, inner⟩
        rw [samePrev second (by simp)]
        exact back.1
  · rw [queue.tail_eq]
    cases rest with
    | nil => simp
    | cons second rest =>
      have differs : (front ++ cur :: second :: rest).getLast? ≠ some cur := by
        intro isLast
        have member : cur ∈ second :: rest :=
          List.mem_of_getLast? (by simpa using isLast : (second :: rest).getLast? = some cur)
        have distinct := (List.nodup_append.mp nodup).2.1
        exact (List.nodup_cons.mp distinct).1 member
      rw [if_neg differs]
      simp
  · have shuffle : (front ++ cur :: node :: rest).Perm (node :: (front ++ cur :: rest)) := by
      have middle : ((front ++ [cur]) ++ node :: rest).Perm (node :: ((front ++ [cur]) ++ rest)) :=
        List.perm_middle
      simpa using middle
    exact (shuffle.nodup_iff).mpr (List.nodup_cons.mpr ⟨fresh, nodup⟩)

/-- **The membership test by links**: a queued node has a link, or it is the whole queue. -/
theorem linked {node : α} (queue : IsQueue next prev head tail nodes) (member : node ∈ nodes) :
    prev node ≠ none ∨ next node ≠ none ∨ (head = some node ∧ tail = some node) := by
  obtain ⟨front, rest, rfl⟩ := List.append_of_mem member
  cases rest with
  | cons second rest =>
    right; left
    have forward := queue.forward
    clear queue member
    induction front generalizing head with
    | nil =>
      rw [forward.2.1]
      exact Option.some_ne_none second
    | cons first front ih => exact ih forward.2
  | nil =>
    rcases List.eq_nil_or_concat front with rfl | ⟨front, before, rfl⟩
    · exact Or.inr (Or.inr ⟨queue.forward.1, queue.tail_eq⟩)
    · left
      have back := queue.back
      clear queue member
      induction front with
      | nil =>
        rw [back.1]
        exact Option.some_ne_none before
      | cons first front ih => exact ih back.tail

end IsQueue

/-! ### A traversal that never ends -/

/-- Two nodes that point at each other are never left. -/
theorem not_forward_of_cycle {next : α → Option α} {first second : α}
    (there : next first = some second) (back : next second = some first) (nodes : List α) :
    ¬ Forward next (some first) nodes ∧ ¬ Forward next (some second) nodes := by
  induction nodes with
  | nil => exact ⟨Option.some_ne_none first, Option.some_ne_none second⟩
  | cons node nodes ih =>
    refine ⟨fun holds => ?_, fun holds => ?_⟩
    · obtain rfl := Option.some.inj holds.1
      have tail := holds.2
      rw [there] at tail
      exact ih.2 tail
    · obtain rfl := Option.some.inj holds.1
      have tail := holds.2
      rw [back] at tail
      exact ih.1 tail

end MinSmt.Library
