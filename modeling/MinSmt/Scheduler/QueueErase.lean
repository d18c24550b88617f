/-
**Erasing from a run queue** (`run_queue::erase`, `include/tern/runtime/run-queue.h`).

`erase` trusts the back links. `pop_front` leaves the old one on the new head, and `push_front` writes
none on the old head, so whether an erase is right depends on how the queue came about.

* `BackLinksOk s e` — the back links that erasing `e` relies on.
* `Intact s nodes` — what the other operations, and the erases that could rely on their back links, keep.
* **`erase_exact_iff`** — in a queue reached through such erases, erasing a queued element does what it
  should exactly when the back links it relies on are in order.
* `erase_of_new_head` — after a `pop_front`, erasing the head gives the popped element a link.
-/

import MinSmt.Scheduler.QueueRuns

namespace MinSmt

open MinSmt.Library

namespace QueueStore

/-- The elements that a traversal from `begin()` visits in its first `size()` steps. -/
def contents (s : QueueStore) : List ElemId := walk (fun e => (s.elems e).next) s.size s.queue.head

/-- A call as the queue expects it: one element is made for a tid, an element is inserted when it is not
queued, and taken out when it is. -/
def Proper (s : QueueStore) : QueueOp → Prop
  | .createThdElem tid => s.tidMap tid = none
  | .pushBack tid | .pushFront tid | .insertYield tid => ∀ elem ∈ s.tidMap tid, elem ∉ s.contents
  | .popFront => s.contents ≠ []
  | .erase position => ∀ elem ∈ position, elem ∈ s.contents

/-- The back link of `e` is in order: it names the element before it; on the head there is none, or `e` is
alone. -/
def OwnLinkOk (s : QueueStore) (e : ElemId) : Prop :=
  (s.queue.head = some e → (s.elems e).prev = none ∨ (s.elems e).next = none) ∧
  (∀ pair ∈ s.contents.zip s.contents.tail, pair.2 = e → (s.elems e).prev = some pair.1)

/-- **The back links that erasing `e` relies on**: its own, and that of the last of at least two remaining
elements, which there has to be unless it gets that of `e`. -/
def BackLinksOk (s : QueueStore) (e : ElemId) : Prop :=
  s.OwnLinkOk e ∧ (2 ≤ (s.contents.erase e).length → ∀ last ∈ (s.contents.erase e).getLast?,
    (s.elems e).next = some last ∨ (s.elems last).prev ≠ none)

/-- An erase goes by a back link that is in order. -/
def ErasesByLink (s : QueueStore) : QueueOp → Prop
  | .erase position => ∀ e ∈ position, s.OwnLinkOk e
  | _ => True

/-- An erase finds its back links in order. -/
def ErasesWell (s : QueueStore) : QueueOp → Prop
  | .erase position => ∀ e ∈ position, s.BackLinksOk e
  | _ => True

instance (s : QueueStore) : ∀ op, Decidable (s.Proper op)
  | .createThdElem tid => inferInstanceAs (Decidable (s.tidMap tid = none))
  | .pushBack tid | .pushFront tid | .insertYield tid =>
    inferInstanceAs (Decidable (∀ elem ∈ s.tidMap tid, elem ∉ s.contents))
  | .popFront => inferInstanceAs (Decidable (s.contents ≠ []))
  | .erase position => inferInstanceAs (Decidable (∀ elem ∈ position, elem ∈ s.contents))

instance (s : QueueStore) (e : ElemId) : Decidable (s.OwnLinkOk e) :=
  inferInstanceAs (Decidable (_ ∧ _))

instance (s : QueueStore) (e : ElemId) : Decidable (s.BackLinksOk e) :=
  inferInstanceAs (Decidable (_ ∧ _))

instance (s : QueueStore) : ∀ op, Decidable (s.ErasesByLink op)
  | .createThdElem _ | .pushBack _ | .pushFront _ | .insertYield _ | .popFront => isTrue trivial
  | .erase position => inferInstanceAs (Decidable (∀ e ∈ position, s.OwnLinkOk e))

instance (s : QueueStore) : ∀ op, Decidable (s.ErasesWell op)
  | .createThdElem _ | .pushBack _ | .pushFront _ | .insertYield _ | .popFront => isTrue trivial
  | .erase position => inferInstanceAs (Decidable (∀ e ∈ position, s.BackLinksOk e))

theorem ErasesWell.byLink {s : QueueStore} {op : QueueOp} (well : s.ErasesWell op) : s.ErasesByLink op := by
  cases op with
  | erase position => exact fun e isPosition => (well e isPosition).1
  | _ => trivial

/-- The queue after `erase` at this element. -/
def erased (s : QueueStore) (e : ElemId) : QueueStore := s.withQueue (s.queue.erase s.elems (some e)).1

/-- **`erase` does what it should**: the traversal loses this element and nothing else, the iterator to its
successor comes back, the size goes down by one, and `in` is right for every element. -/
structure ErasesExactly (s : QueueStore) (e : ElemId) : Prop where
  traversal : (s.erased e).Traversal (s.contents.erase e)
  successor : ∀ front rest, s.contents = front ++ e :: rest →
    (s.queue.erase s.elems (some e)).2 = rest.head?
  size : (s.erased e).size + 1 = s.size
  isIn : ∀ tid elem, s.tidMap tid = some elem →
    ((s.erased e).isIn tid = some true ↔ elem ∈ s.contents.erase e)

end QueueStore

/-! ### What the operations keep -/

/-- The queue is a chain of elements that were made, and so are the elements that back links name; an
element is the only one of its tid. -/
structure Intact (s : QueueStore) (nodes : List ElemId) : Prop where
  chain : s.queue.Chain s.elems nodes
  backs : ∀ e p, (s.elems e).prev = some p → p ≠ e ∧ p < s.made
  queuedMade : ∀ e ∈ nodes, e < s.made
  named : ∀ e, e < s.made → s.tidMap (s.tidOf e) = some e
  own : ∀ tid e, s.tidMap tid = some e → s.tidOf e = tid ∧ e < s.made

namespace Intact

variable {s s' : QueueStore} {nodes front rest : List ElemId} {tid : Tid} {elem e : ElemId}

theorem init : Intact {} [] where
  chain := RunQueue.Chain.empty _ fun _ => ⟨rfl, rfl⟩
  backs := by simp
  queuedMade := by simp
  named := by simp
  own := by simp

theorem contents_eq (intact : Intact s nodes) : s.contents = nodes := by
  rw [QueueStore.contents, QueueStore.size, intact.chain.size]
  exact intact.chain.forward.walk_eq

theorem createThdElem (intact : Intact s nodes) (unused : s.tidMap tid = none) :
    Intact (s.createThdElem tid) nodes := by
  have elemsOf : ∀ t, t ≠ s.made → (s.createThdElem tid).elems t = s.elems t := fun t old =>
    Function.update_of_ne old _ _
  have newElem : (s.createThdElem tid).elems s.made = {} := Function.update_self ..
  have tidOf : ∀ t, t ≠ s.made → (s.createThdElem tid).tidOf t = s.tidOf t := fun t old =>
    Function.update_of_ne old _ _
  have newTid : (s.createThdElem tid).tidOf s.made = tid := Function.update_self ..
  have mapOf : ∀ t, t ≠ tid → (s.createThdElem tid).tidMap t = s.tidMap t := fun t other =>
    Function.update_of_ne other _ _
  have newMap : (s.createThdElem tid).tidMap tid = some s.made := Function.update_self ..
  have unqueued : s.made ∉ nodes := fun inside => Nat.lt_irrefl _ (intact.queuedMade _ inside)
  refine ⟨intact.chain.congr fun t => ?_, fun t p isPrev => ?_, fun t inside => ?_, fun t made => ?_,
    fun t u mapped => ?_⟩
  · by_cases new : t = s.made
    · rw [new, newElem, (intact.chain.bare _ unqueued).1, (intact.chain.bare _ unqueued).2]
      exact ⟨rfl, rfl⟩
    · rw [elemsOf t new]
      exact ⟨rfl, rfl⟩
  · by_cases new : t = s.made
    · rw [new, newElem] at isPrev
      cases isPrev
    · rw [elemsOf t new] at isPrev
      exact ⟨(intact.backs t p isPrev).1, Nat.lt_succ_of_lt (intact.backs t p isPrev).2⟩
  · exact Nat.lt_succ_of_lt (intact.queuedMade t inside)
  · by_cases new : t = s.made
    · rw [new, newTid, newMap]
    · have before := intact.named t (Nat.lt_of_le_of_ne (Nat.le_of_lt_succ made) new)
      rw [tidOf t new, mapOf, before]
      intro same
      rw [same, unused] at before
      cases before
  · by_cases same : t = tid
    · subst same
      obtain rfl : s.made = u := Option.some.inj (newMap.symm.trans mapped)
      exact ⟨newTid, Nat.lt_succ_self _⟩
    · rw [mapOf t same] at mapped
      obtain ⟨isTid, made⟩ := intact.own t u mapped
      exact ⟨(tidOf u (Nat.ne_of_lt made)).trans isTid, Nat.lt_succ_of_lt made⟩

/-- An operation makes no elements. -/
theorem withQueue (intact : Intact s nodes) {result : Elems × RunQueue} {nodes' : List ElemId}
    (chain : result.2.Chain result.1 nodes') (members : ∀ t ∈ nodes', t < s.made)
    (backs : ∀ t p, (result.1 t).prev = some p → (s.elems t).prev ≠ some p → p ≠ t ∧ p < s.made) :
    Intact (s.withQueue result) nodes' := by
  refine ⟨chain, fun t p isPrev => ?_, members, intact.named, intact.own⟩
  by_cases old : (s.elems t).prev = some p
  · exact intact.backs t p old
  · exact backs t p isPrev old

theorem pushBack (intact : Intact s nodes) (mapped : s.tidMap tid = some elem) (fresh : elem ∉ nodes) :
    Intact (s.withQueue (s.queue.pushBack s.elems elem)) (nodes ++ [elem]) := by
  have made := (intact.own tid elem mapped).2
  refine intact.withQueue (intact.chain.pushBack fresh).1 (fun t inside => ?_) fun t p isPrev new => ?_
  · rcases List.mem_append.mp inside with old | new
    · exact intact.queuedMade t old
    · exact List.mem_singleton.mp new ▸ made
  · rw [RunQueue.pushBack_prev] at isPrev
    by_cases linked : s.queue.head.isSome = true ∧ t = elem
    · rw [if_pos linked, intact.chain.tail_eq (intact.chain.head_isSome.mp linked.1)] at isPrev
      have inside := List.mem_of_getLast? isPrev
      exact ⟨fun same => fresh (linked.2 ▸ same ▸ inside), intact.queuedMade p inside⟩
    · rw [if_neg linked] at isPrev
      exact absurd isPrev new

theorem pushFront (intact : Intact s nodes) (mapped : s.tidMap tid = some elem) (fresh : elem ∉ nodes) :
    Intact (s.withQueue (s.queue.pushFront s.elems elem)) (elem :: nodes) := by
  have made := (intact.own tid elem mapped).2
  refine intact.withQueue (intact.chain.pushFront fresh) (fun t inside => ?_) fun t p isPrev new => ?_
  · rcases List.mem_cons.mp inside with rfl | old
    · exact made
    · exact intact.queuedMade t old
  · exact absurd ((RunQueue.pushFront_fields s.queue s.elems elem t).2.1 ▸ isPrev) new

theorem insertYield (intact : Intact s nodes) (mapped : s.tidMap tid = some elem) (fresh : elem ∉ nodes) :
    ∃ result nodes', s.queue.insertYield s.elems elem = some result ∧
      Intact (s.withQueue result) nodes' ∧ nodes'.Perm (elem :: nodes) ∧
      (∀ t, (result.1 t).lastYield = (if t = elem then true else (s.elems t).lastYield)) ∧
      result.2.numYieldElem = if nodes = [] then s.queue.numYieldElem
        else (s.queue.numYieldElem + 1) % sizeT := by
  have made := (intact.own tid elem mapped).2
  obtain ⟨elems', q', result, chain, -, fields, counter⟩ := intact.chain.insertYield fresh
  refine ⟨_, _, result, intact.withQueue chain (fun t inside => ?_) fun t p isPrev new => ?_,
    RunQueue.insertYielded_perm .., fun t => (fields t).1, counter⟩
  · rcases (RunQueue.mem_insertYielded ..).mp inside with rfl | old
    · exact made
    · exact intact.queuedMade t old
  · rcases (fields t).2 with same | ⟨u, inside, different, isBack⟩
    · exact absurd (same ▸ isPrev) new
    · obtain rfl : u = p := Option.some.inj (isBack.symm.trans isPrev)
      refine ⟨different, ?_⟩
      rcases List.mem_cons.mp inside with rfl | old
      · exact made
      · exact intact.queuedMade u old

theorem popFront (intact : Intact s (e :: nodes)) :
    ∃ result, s.queue.popFront s.elems = some result ∧ Intact (s.withQueue result) nodes := by
  obtain ⟨elems', q', popped, chain, fields, -⟩ := intact.chain.popFront
  refine ⟨_, popped, intact.withQueue chain (fun t inside => ?_) fun t p isPrev new => ?_⟩
  · exact intact.queuedMade t (List.mem_cons_of_mem _ inside)
  · rw [(fields t).2.1] at isPrev
    split at isPrev
    · cases isPrev
    · exact absurd isPrev new

/-! ### Erasing -/

/-- What the back link of an element in its place has to be. -/
theorem ownLinkOk_iff (intact : Intact s (front ++ e :: rest)) : s.OwnLinkOk e ↔
    (front = [] → (s.elems e).prev = none ∨ (s.elems e).next = none) ∧
    (∀ before ∈ front.getLast?, (s.elems e).prev = some before) := by
  have distinct := List.nodup_cons.mp (List.nodup_middle.mp intact.chain.nodup)
  have notFront : e ∉ front := fun inside => distinct.1 (List.mem_append_left _ inside)
  have isHead : s.queue.head = some e ↔ front = [] := by
    rw [intact.chain.head_eq]
    cases front with
    | nil => simp
    | cons first front =>
      have : first ≠ e := fun same => notFront (by simp [same])
      simp [this]
  have before : (∀ pair ∈ (front ++ e :: rest).zip (front ++ e :: rest).tail, pair.2 = e →
      (s.elems e).prev = some pair.1) ↔ ∀ before ∈ front.getLast?, (s.elems e).prev = some before := by
    constructor
    · intro all before isLast
      obtain ⟨firsts, rfl⟩ := List.getLast?_eq_some_iff.mp isLast
      exact all (before, e) (mem_zip_tail.mpr ⟨firsts, rest, by simp⟩) rfl
    · rintro all ⟨before, second⟩ pair (rfl : second = e)
      obtain ⟨firsts, others, split⟩ := mem_zip_tail.mp pair
      refine all before ?_
      have shape : front ++ second :: rest = (firsts ++ [before]) ++ second :: others := by
        rw [split]
        simp
      have same := ((List.append_cons_inj_of_notMem notFront
        fun inside => distinct.1 (List.mem_append_right _ inside)).mp shape).1
      rw [same]
      exact List.getLast?_concat
  rw [QueueStore.OwnLinkOk, intact.contents_eq, isHead, before]

/-- The elements that remain after an erase. -/
theorem contents_erase (intact : Intact s (front ++ e :: rest)) : s.contents.erase e = front ++ rest := by
  have distinct := List.nodup_cons.mp (List.nodup_middle.mp intact.chain.nodup)
  have notFront : e ∉ front := fun inside => distinct.1 (List.mem_append_left _ inside)
  rw [intact.contents_eq, List.erase_append_right _ notFront, List.erase_cons_head]

/-- **An erase whose back links are in order** takes the element out. -/
theorem erase (intact : Intact s (front ++ e :: rest)) (fine : s.OwnLinkOk e) :
    Intact (s.erased e) (front ++ rest) := by
  obtain ⟨first, inner⟩ := intact.ownLinkOk_iff.mp fine
  have distinct := List.nodup_cons.mp (List.nodup_middle.mp intact.chain.nodup)
  have isNext : (s.elems e).next = rest.head? := intact.chain.forward.next_eq
  refine intact.withQueue (intact.chain.erase first inner) (fun t inside => ?_) fun t p isPrev new => ?_
  · refine intact.queuedMade t ?_
    rcases List.mem_append.mp inside with h | h <;> simp [h]
  · rw [(RunQueue.erase_fields s.queue s.elems t e).2.1] at isPrev
    split at isPrev
    · cases isPrev
    · split at isPrev
      case isTrue atNext =>
        refine ⟨?_, (intact.backs e p isPrev).2⟩
        rintro rfl
        rw [isNext] at atNext
        have inside := List.mem_of_head? atNext
        rcases List.eq_nil_or_concat front with rfl | ⟨firsts, before, rfl⟩
        · rcases first rfl with none | alone
          · rw [none] at isPrev
            cases isPrev
          · rw [isNext, atNext] at alone
            cases alone
        · rw [List.concat_eq_append] at *
          obtain rfl : before = p := Option.some.inj ((inner before List.getLast?_concat).symm.trans isPrev)
          exact (List.nodup_append.mp distinct.2).2.2 before (by simp) before inside rfl
      case isFalse => exact absurd isPrev new

/-- **Each proper operation keeps the queue intact**, an erase when its back links are in order. -/
theorem step (intact : Intact s nodes) {op : QueueOp} (proper : s.Proper op) (well : s.ErasesByLink op)
    (moved : s.step op = some s') : ∃ nodes', Intact s' nodes' := by
  have contents := intact.contents_eq
  cases op with
  | createThdElem tid =>
    simp only [QueueStore.step] at moved
    split at moved
    case isFalse => cases moved
    case isTrue =>
      cases moved
      exact ⟨nodes, intact.createThdElem proper⟩
  | pushBack tid =>
    obtain ⟨elem, mapped, rfl⟩ := Option.map_eq_some_iff.mp moved
    exact ⟨_, intact.pushBack mapped (contents ▸ proper elem mapped)⟩
  | pushFront tid =>
    obtain ⟨elem, mapped, rfl⟩ := Option.map_eq_some_iff.mp moved
    exact ⟨_, intact.pushFront mapped (contents ▸ proper elem mapped)⟩
  | insertYield tid =>
    obtain ⟨elem, mapped, inserted⟩ := Option.bind_eq_some_iff.mp moved
    obtain ⟨result, nodes', isResult, after, -⟩ := intact.insertYield mapped (contents ▸ proper elem mapped)
    rw [isResult] at inserted
    cases inserted
    exact ⟨nodes', after⟩
  | popFront =>
    cases nodes with
    | nil => exact absurd contents proper
    | cons first rest =>
      obtain ⟨result, isResult, after⟩ := intact.popFront
      rw [QueueStore.step, isResult] at moved
      cases moved
      exact ⟨rest, after⟩
  | erase position =>
    cases moved
    cases position with
    | none => exact ⟨nodes, intact⟩
    | some e =>
      have inside : e ∈ nodes := contents ▸ proper e rfl
      obtain ⟨front, rest, rfl⟩ := List.append_of_mem inside
      exact ⟨_, intact.erase (well e rfl)⟩

/-- What the back link of the last remaining element becomes. -/
theorem erased_prev (s : QueueStore) {t : ElemId} (other : t ≠ e) : ((s.erased e).elems t).prev =
    if (s.elems e).next = some t then (s.elems e).prev else (s.elems t).prev := by
  rw [QueueStore.erased, QueueStore.withQueue_elems, (RunQueue.erase_fields s.queue s.elems t e).2.1,
    if_neg other]

/-- With its back links in order, an erase does what it should. -/
theorem erasesExactly (intact : Intact s (front ++ e :: rest)) (fine : s.BackLinksOk e) :
    s.ErasesExactly e := by
  have after := intact.erase fine.1
  have inner := (intact.ownLinkOk_iff.mp fine.1).2
  have distinct := List.nodup_cons.mp (List.nodup_middle.mp intact.chain.nodup)
  have notFront : e ∉ front := fun inside => distinct.1 (List.mem_append_left _ inside)
  have isNext : (s.elems e).next = rest.head? := intact.chain.forward.next_eq
  have remaining := intact.contents_erase
  have linked : RunQueue.LastLinked (s.erased e).elems (front ++ rest) := by
    intro long final isLast
    have other : final ≠ e := fun same => distinct.1 (same ▸ List.mem_of_getLast? isLast)
    rw [erased_prev s other]
    by_cases atNext : (s.elems e).next = some final
    · rw [if_pos atNext]
      rcases List.eq_nil_or_concat front with rfl | ⟨firsts, before, rfl⟩
      · -- the successor is the last one, so it is the only one left
        cases rest with
        | nil => simp at long
        | cons second rest =>
          obtain rfl : second = final := by simpa using isNext.symm.trans atNext
          cases rest with
          | nil => simp at long
          | cons third rest =>
            have inside : second ∈ third :: rest :=
              List.mem_of_getLast? (by simpa using isLast)
            exact absurd inside (List.nodup_cons.mp distinct.2).1
      · rw [inner before (by simp)]
        exact Option.some_ne_none before
    · rw [if_neg atNext]
      exact (fine.2 (remaining ▸ long) final (remaining ▸ isLast)).resolve_left atNext
  refine ⟨?_, fun front' rest' split => ?_, ?_, fun tid elem mapped => ?_⟩
  · rw [remaining]
    exact after.chain.forward
  · rw [intact.contents_eq] at split
    have same := (List.append_cons_inj_of_notMem notFront
      fun inside => distinct.1 (List.mem_append_right _ inside)).mp split
    rw [(RunQueue.erase_queue s.queue s.elems e).2, isNext, same.2.2]
  · rw [QueueStore.size, QueueStore.size, after.chain.size, intact.chain.size]
    simp [Nat.add_assoc]
  · rw [remaining, ← after.chain.isIn_iff.mpr linked elem]
    show (s.tidMap tid).map _ = some true ↔ _
    rw [mapped]
    simp

/-- **An erase that does what it should found its back links in order.** -/
theorem backLinksOk_of_erasesExactly (intact : Intact s (front ++ e :: rest)) (right : s.ErasesExactly e) :
    s.BackLinksOk e := by
  have distinct := List.nodup_cons.mp (List.nodup_middle.mp intact.chain.nodup)
  have notFront : e ∉ front := fun inside => distinct.1 (List.mem_append_left _ inside)
  have isNext : (s.elems e).next = rest.head? := intact.chain.forward.next_eq
  have remaining := intact.contents_erase
  have traversal := right.traversal
  rw [remaining] at traversal
  have nextOf : ∀ t, t ≠ e → ((s.erased e).elems t).next =
      if (s.elems e).prev = some t then (s.elems e).next else (s.elems t).next := by
    intro t other
    rw [QueueStore.erased, QueueStore.withQueue_elems, (RunQueue.erase_fields s.queue s.elems t e).1,
      if_neg other]
  refine ⟨intact.ownLinkOk_iff.mpr ⟨fun isFirst => ?_, fun before isBefore => ?_⟩, fun long final isLast => ?_⟩
  · subst isFirst
    by_contra neither
    obtain ⟨hasPrev, hasNext⟩ := not_or.mp neither
    obtain ⟨p, isPrev⟩ := Option.ne_none_iff_exists'.mp hasPrev
    obtain ⟨n, atNext⟩ := Option.ne_none_iff_exists'.mp hasNext
    obtain ⟨other, made⟩ := intact.backs e p isPrev
    have pNext : ((s.erased e).elems p).next = some n := by rw [nextOf p other, if_pos isPrev, atNext]
    by_cases queued : p ∈ rest
    · -- the element it names is queued again, and points back to the new head
      obtain ⟨firsts, others, rfl⟩ := List.append_of_mem queued
      have after : some n = others.head? := pNext ▸ Forward.next_eq traversal
      have inside := List.mem_of_head? after.symm
      have isHead : n ∈ (firsts ++ p :: others).head? := isNext ▸ atNext
      have once := List.nodup_cons.mp (List.nodup_middle.mp distinct.2)
      cases firsts with
      | nil =>
        obtain rfl : p = n := by simpa using isHead
        exact once.1 inside
      | cons first firsts =>
        obtain rfl : first = n := by simpa using isHead
        exact (List.nodup_append.mp once.2).2.2 first (by simp) first inside rfl
    · -- the element it names is not queued, and has a link now
      have answer : (s.erased e).isIn (s.tidOf p) = some true := by
        show (s.tidMap (s.tidOf p)).map _ = some true
        rw [intact.named p made]
        simp [RunQueue.isIn, QueueStore.erased] at pNext ⊢
        simp [pNext]
      have inside := (right.isIn _ p (intact.named p made)).mp answer
      rw [remaining] at inside
      exact queued inside
  · obtain ⟨firsts, rfl⟩ := List.getLast?_eq_some_iff.mp isBefore
    by_contra notPrev
    have other : before ≠ e := fun same => notFront (by simp [same])
    have isAfter : (s.elems before).next = some e := by
      have forward := intact.chain.forward
      rw [List.append_assoc] at forward
      exact forward.next_eq
    have now : ((s.erased e).elems before).next = rest.head? := by
      rw [List.append_assoc] at traversal
      exact Forward.next_eq traversal
    rw [nextOf before other, if_neg notPrev, isAfter] at now
    exact distinct.1 (List.mem_append_right _ (List.mem_of_head? now.symm))
  · rw [remaining] at long isLast
    have inside := List.mem_of_getLast? isLast
    have other : final ≠ e := fun same => distinct.1 (same ▸ inside)
    have made : final < s.made := intact.queuedMade final (by
      rcases List.mem_append.mp inside with h | h <;> simp [h])
    have answer := (right.isIn _ final (intact.named final made)).mpr (remaining ▸ inside)
    obtain ⟨firsts, split⟩ := List.getLast?_eq_some_iff.mp isLast
    rw [split] at traversal long
    have noNext := Forward.last_next traversal
    have notHead : (s.erased e).queue.head ≠ some final := by
      intro isHead
      have head := (Forward.head traversal).symm.trans isHead
      have nodup := split ▸ distinct.2
      cases firsts with
      | nil => simp at long
      | cons first firsts =>
        obtain rfl : first = final := by simpa using head
        exact (List.nodup_cons.mp nodup).1 (by simp)
    have hasPrev : ((s.erased e).elems final).prev ≠ none := by
      intro noPrev
      change (s.tidMap (s.tidOf final)).map _ = some true at answer
      rw [intact.named final made] at answer
      simp [RunQueue.isIn, noPrev, noNext, notHead] at answer
    rw [erased_prev s other] at hasPrev
    by_cases atNext : (s.elems e).next = some final
    · exact Or.inl atNext
    · rw [if_neg atNext] at hasPrev
      exact Or.inr hasPrev

end Intact

/-! ### Runs -/

/-- **Erasing is exact when the back links it relies on are in order, and only then**: in every queue that
proper operations and such erases reach from the empty one, and for every queued element. -/
theorem erase_exact_iff {ops : List QueueOp} {s : QueueStore} {e : ElemId}
    (run : exec QueueStore.step {} ops = some s) (proper : Along QueueStore.step QueueStore.Proper {} ops)
    (well : Along QueueStore.step QueueStore.ErasesWell {} ops) (queued : e ∈ s.contents) :
    s.ErasesExactly e ↔ s.BackLinksOk e := by
  obtain ⟨nodes, intact⟩ := exec_invariant (fun s => ∃ nodes, Intact s nodes)
    (fun _ _ _ ⟨_, intact⟩ both moved => intact.step both.1 both.2.byLink moved) ⟨[], Intact.init⟩
    (proper.and well) run
  rw [intact.contents_eq] at queued
  obtain ⟨front, rest, rfl⟩ := List.append_of_mem queued
  exact ⟨intact.backLinksOk_of_erasesExactly, intact.erasesExactly⟩

/-- It applies to the second of three elements. -/
theorem erase_exact_iff_second : ∃ s,
    exec QueueStore.step {} [.createThdElem 2, .createThdElem 3, .createThdElem 4, .pushBack 2, .pushBack 3,
      .pushBack 4] = some s ∧ (s.ErasesExactly 1 ↔ s.BackLinksOk 1) := by
  have found : (exec QueueStore.step {} [.createThdElem 2, .createThdElem 3, .createThdElem 4, .pushBack 2,
      .pushBack 3, .pushBack 4]).any (fun s => decide (1 ∈ s.contents)) = true := by decide +kernel
  obtain ⟨s, run, queued⟩ := exec_of_any found
  exact ⟨s, run, erase_exact_iff run (by decide +kernel) (by decide +kernel) (of_decide_eq_true queued)⟩

/-- **After a `pop_front` the erase of the head is wrong.** The new head still points back to the popped
element, `erase` writes to the `next` of that one, and `in` is true for a tid that is not queued. -/
theorem erase_of_new_head : ∃ s,
    exec QueueStore.step {} [.createThdElem 2, .createThdElem 3, .createThdElem 4, .pushBack 2, .pushBack 3,
      .pushBack 4, .popFront] = some s ∧
    Along QueueStore.step QueueStore.Proper {} [.createThdElem 2, .createThdElem 3, .createThdElem 4,
      .pushBack 2, .pushBack 3, .pushBack 4, .popFront] ∧
    1 ∈ s.contents ∧ ¬ s.ErasesExactly 1 := by
  have found : (exec QueueStore.step {} [.createThdElem 2, .createThdElem 3, .createThdElem 4, .pushBack 2,
      .pushBack 3, .pushBack 4, .popFront]).any (fun s => decide (1 ∈ s.contents ∧ s.tidMap 2 = some 0 ∧
        (s.erased 1).isIn 2 = some true ∧ 0 ∉ s.contents.erase 1)) = true := by decide +kernel
  obtain ⟨s, run, here⟩ := exec_of_any found
  obtain ⟨queued, mapped, answer, notQueued⟩ := of_decide_eq_true here
  exact ⟨s, run, by decide +kernel, queued, fun right => notQueued ((right.isIn 2 0 mapped).mp answer)⟩

end MinSmt
