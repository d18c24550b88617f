/-
**The position at which `insert_yield` inserts** (`include/tern/runtime/run-queue.h`).

A thread that yields goes behind all other yielded threads, and behind one that has not yielded
(`high_priority_yield` in `default.options`).

* `lastYielded`, `firstUnyielded`, `yieldPlace` — that position, read off the `last_yield` fields.
* `yieldPosition_eq` — the loop of `insert_yield` stops there, when `num_yield_elem` is exact.
* `InsertedAt` — a queue with one more element at a position; no other field of any element is written.
* `insertYield_inserts` — `insert_yield` inserts there.
-/

import MinSmt.Scheduler.RunQueue

namespace MinSmt

open MinSmt.Library

/-! ### The position in the flags -/

/-- The index of the last element that has yielded. -/
def lastYielded (flags : List Bool) : Option Nat :=
  (flags.reverse.idxOf? true).map fun index => flags.length - 1 - index

/-- The index of the first element that has not yielded. -/
def firstUnyielded (flags : List Bool) : Option Nat := flags.idxOf? false

/-- Behind the last yielded element. -/
def behindYielded (flags : List Bool) : Nat := (lastYielded flags).elim 0 (· + 1)

/-- Behind the first element that has not yielded, or at the end. -/
def behindUnyielded (flags : List Bool) : Nat := (firstUnyielded flags).elim flags.length (· + 1)

/-- Behind all that have yielded and one that has not. -/
def yieldPlace (flags : List Bool) : Nat := max (behindYielded flags) (behindUnyielded flags)

theorem behindUnyielded_cons (flag : Bool) (rest : List Bool) :
    behindUnyielded (flag :: rest) = if flag then behindUnyielded rest + 1 else 1 := by
  unfold behindUnyielded firstUnyielded
  rw [List.idxOf?_cons]
  cases flag with
  | false => rfl
  | true => cases List.idxOf? false rest <;> rfl

/-- Nothing has yielded. -/
theorem behindYielded_eq_zero {flags : List Bool} (absent : true ∉ flags) : behindYielded flags = 0 := by
  have nothing : flags.reverse.idxOf? true = none := List.idxOf?_eq_none_iff.mpr (by simpa using absent)
  rw [behindYielded, lastYielded, nothing]
  rfl

theorem behindYielded_cons_of_mem (flag : Bool) {rest : List Bool} (more : true ∈ rest) :
    behindYielded (flag :: rest) = behindYielded rest + 1 := by
  obtain ⟨index, isIndex⟩ : ∃ index, rest.reverse.idxOf? true = some index :=
    Option.ne_none_iff_exists'.mp fun nothing => List.idxOf?_eq_none_iff.mp nothing (by simpa using more)
  have inside : index < rest.length := by
    simpa using (List.idxOf?_eq_some_iff.mp isIndex).1
  have whole : (flag :: rest).reverse.idxOf? true = some index := by
    rw [List.reverse_cons, List.idxOf?, List.findIdx?_append]
    rw [List.idxOf?] at isIndex
    rw [isIndex]
    rfl
  rw [behindYielded, behindYielded, lastYielded, lastYielded, whole, isIndex]
  show (rest.length + 1 - 1 - index) + 1 = (rest.length - 1 - index + 1) + 1
  omega

theorem behindYielded_cons_true (rest : List Bool) :
    behindYielded (true :: rest) = behindYielded rest + 1 := by
  by_cases more : true ∈ rest
  · exact behindYielded_cons_of_mem true more
  · have nothing : rest.reverse.findIdx? (· == true) = none :=
      List.idxOf?_eq_none_iff.mpr (by simpa using more)
    have whole : (true :: rest).reverse.idxOf? true = some rest.length := by
      rw [List.reverse_cons, List.idxOf?, List.findIdx?_append, nothing]
      simp
    rw [behindYielded_eq_zero more, behindYielded, lastYielded, whole]
    show (rest.length + 1 - 1 - rest.length) + 1 = 0 + 1
    omega

/-- Where the loop of `insert_yield` stops, from any element. -/
theorem yieldSteps_eq (numYieldElem count : Nat) (found : Bool) (flags : List Bool)
    (exact : numYieldElem = count + flags.count true) :
    RunQueue.yieldSteps numYieldElem count found flags =
      max (behindYielded flags) (if found then 0 else behindUnyielded flags) := by
  induction flags generalizing count found with
  | nil => cases found <;> rfl
  | cons yielded rest ih =>
    rw [RunQueue.yieldSteps, behindUnyielded_cons]
    cases yielded with
    | true =>
      have counted : numYieldElem = count + 1 + rest.count true := by
        rw [exact, List.count_cons_self]
        omega
      rw [if_pos (Or.inl (by omega)), if_pos rfl, ih (count + 1) found counted, behindYielded_cons_true]
      cases found <;> simp
    | false =>
      have counted : numYieldElem = count + rest.count true := by rw [exact, List.count_cons_of_ne (by simp)]
      by_cases more : true ∈ rest
      · have positive := List.count_pos_iff.mpr more
        rw [if_pos (Or.inl (by omega)), if_neg Bool.false_ne_true, ih count true counted,
          behindYielded_cons_of_mem false more]
        cases found <;> simp
      · -- No yielded element is left, so the loop goes on only for one that has not yielded.
        have none := List.count_eq_zero.mpr more
        have absent : true ∉ false :: rest := by simpa using more
        rw [ih count true counted, behindYielded_eq_zero more, behindYielded_eq_zero absent]
        cases found with
        | true => simp [counted, none]
        | false => simp

/-- **The loop of `insert_yield` stops behind all that have yielded and one that has not**, when the
counter is exact. -/
theorem yieldPosition_eq {numYieldElem : Nat} {flags : List Bool} (nonempty : flags ≠ [])
    (exact : numYieldElem = flags.count true) : RunQueue.yieldPosition numYieldElem flags = yieldPlace flags := by
  obtain ⟨head, rest, rfl⟩ := List.exists_cons_of_ne_nil nonempty
  rw [RunQueue.yieldPosition, yieldPlace, behindUnyielded_cons]
  cases head with
  | true =>
    have counted : numYieldElem = 1 + rest.count true := by
      rw [exact, List.count_cons_self]
      omega
    have steps := yieldSteps_eq numYieldElem 1 false rest counted
    rw [behindYielded_cons_true]
    simpa using steps
  | false =>
    have counted : numYieldElem = 0 + rest.count true := by
      rw [exact, List.count_cons_of_ne (by simp), Nat.zero_add]
    have steps := yieldSteps_eq numYieldElem 0 true rest counted
    by_cases more : true ∈ rest
    · rw [behindYielded_cons_of_mem false more]
      simpa using steps
    · have absent : true ∉ false :: rest := by simpa using more
      rw [behindYielded_eq_zero absent]
      rw [behindYielded_eq_zero more] at steps
      simpa using steps

/-! ### The queue afterwards -/

attribute [ext] RunqElem

/-- **A queue with one more element at a position.** The element is yielded and linked to its
neighbours, which are linked to it; nothing else is written. -/
structure InsertedAt (k : Nat) (tid : Tid) (tids : List Tid) (elems : Elems) (q : RunQueue) (elems' : Elems)
    (q' : RunQueue) : Prop where
  holds : q'.Holds elems' (tids.take k ++ [tid] ++ tids.drop k)
  queue : q' =
    { q with
      tail := if k = tids.length then some tid else q.tail
      numElements := q.numElements + 1
      numYieldElem := (q.numYieldElem + 1) % sizeT }
  elem : elems' tid = { elems tid with prev := tids[k - 1]?, next := tids[k]?, lastYield := true }
  others : ∀ t, t ≠ tid → elems' t =
    { elems t with
      next := if tids[k - 1]? = some t then some tid else (elems t).next
      prev := if tids[k]? = some t then some tid else (elems t).prev }

/-- The last element of a queue is where its contents end. -/
theorem last_iff_length {front after : List Tid} {cur : Tid} (nodup : (front ++ cur :: after).Nodup) :
    (front ++ cur :: after).getLast? = some cur ↔ front.length + 1 = (front ++ cur :: after).length := by
  cases after with
  | nil => simp
  | cons second rest =>
    have apart : cur ∉ second :: rest := (List.nodup_cons.mp (List.nodup_append.mp nodup).2.1).1
    rw [List.getLast?_append_of_ne_nil _ (List.cons_ne_nil _ _), List.getLast?_cons_cons]
    refine iff_of_false (fun isLast => apart (List.mem_of_getLast? isLast)) ?_
    simp

theorem yieldPosition_le (numYieldElem : Nat) {flags : List Bool} (nonempty : flags ≠ []) :
    RunQueue.yieldPosition numYieldElem flags ≤ flags.length := by
  obtain ⟨head, rest, rfl⟩ := List.exists_cons_of_ne_nil nonempty
  exact Nat.succ_le_succ (RunQueue.yieldSteps_le _ _ _ rest)

/-- What linking a marked element writes. -/
theorem linkAfter_markYielded {elems : Elems} {cur tid : Tid}
    (notNext : (elems cur).next ≠ some tid) :
    RunQueue.linkAfter (markYielded elems tid) cur tid tid =
        { elems tid with prev := some cur, next := (elems cur).next, lastYield := true } ∧
      ∀ t, t ≠ tid → RunQueue.linkAfter (markYielded elems tid) cur tid t =
        { elems t with
          next := if some cur = some t then some tid else (elems t).next
          prev := if (elems cur).next = some t then some tid else (elems t).prev } := by
  have marks := @RunQueue.markYielded_fields elems tid
  have fields := fun t => RunQueue.linkAfter_fields (markYielded elems tid) tid t cur
  have status := fun t => RunQueue.linkAfter_status (markYielded elems tid) tid t cur
  have sameStatus : ∀ t, (markYielded elems tid t).status = (elems t).status := fun t => by
    by_cases own : t = tid <;> simp [markYielded, own]
  constructor
  · obtain ⟨next, prev, yielded⟩ := fields tid
    ext1
    · rw [status, sameStatus]
    · rw [prev, (marks cur).1, if_neg notNext, if_pos rfl]
    · rw [next, (marks cur).1, if_pos rfl]
    · rw [yielded, (marks tid).2.2, if_pos rfl]
  · intro t different
    obtain ⟨next, prev, yielded⟩ := fields t
    ext1
    · rw [status, sameStatus]
    · rw [prev, (marks cur).1, (marks t).2.1, if_neg different]
    · rw [next, if_neg different, (marks t).1]
      simp only [Option.some.injEq, eq_comm]
    · rw [yielded, (marks t).2.2, if_neg different]

/-- **`insert_yield` inserts behind all that have yielded and one that has not**, when the counter is
exact. -/
theorem insertYield_inserts {q : RunQueue} {elems : Elems} {tids : List Tid} {tid : Tid}
    (holds : q.Holds elems tids) (nonempty : tids ≠ [])
    (exact : q.numYieldElem = tids.countP fun t => (elems t).lastYield) (fresh : tid ∉ tids) :
    ∃ elems' q', q.insertYield elems tid = some (elems', q') ∧
      InsertedAt (yieldPlace (tids.map fun t => (elems t).lastYield)) tid tids elems q elems' q' := by
  obtain ⟨head, rest, rfl⟩ := List.exists_cons_of_ne_nil nonempty
  obtain ⟨front, cur, after, split, result, inserted⟩ :=
    RunQueue.insertYield_stops holds.forward holds.size fresh
  have count : q.numYieldElem = ((head :: rest).map fun t => (elems t).lastYield).count true := by
    rw [exact, List.count, List.countP_map]
    exact List.countP_congr fun t _ => by simp
  have isPlace := yieldPosition_eq (by simp) count
  have bound := @yieldPosition_le q.numYieldElem ((head :: rest).map fun t => (elems t).lastYield) (by simp)
  rw [isPlace, List.length_map] at bound
  rw [RunQueue.insertYielded, isPlace] at result
  generalize yieldPlace ((head :: rest).map fun t => (elems t).lastYield) = k at result bound
  generalize head :: rest = tids at *
  subst split
  have isFront : (front ++ cur :: after).take k = front ++ [cur] := by
    have notAhead : tid ∉ (front ++ cur :: after).take k := fun inside => fresh (List.mem_of_mem_take inside)
    have notBehind : tid ∉ (front ++ cur :: after).drop k := fun inside => fresh (List.mem_of_mem_drop inside)
    have whole := result.trans (List.append_cons front cur (tid :: after))
    exact ((List.append_cons_inj_of_notMem notAhead notBehind).mp whole).1
  have isK : k = front.length + 1 := by
    have lengths := congrArg List.length isFront
    rw [List.length_take, Nat.min_eq_left bound, List.length_append] at lengths
    exact lengths
  subst isK
  have before : (front ++ cur :: after)[front.length + 1 - 1]? = some cur := by simp
  have behind : (front ++ cur :: after)[front.length + 1]? = (elems cur).next := by
    rw [holds.forward.next_eq, List.getElem?_append_right (Nat.le_add_right _ 1), Nat.add_sub_cancel_left,
      List.getElem?_cons_succ, List.head?_eq_getElem?]
  have nextInside : ∀ t, (elems cur).next = some t → t ∈ front ++ cur :: after := fun t isNext =>
    holds.forward.next_mem (by simp) isNext
  have written := linkAfter_markYielded fun isNext => fresh (nextInside tid isNext)
  have last := last_iff_length holds.queue.nodup
  have marked : q.Holds (markYielded elems tid) (front ++ cur :: after) := holds.congr fun t _ =>
    ⟨(RunQueue.markYielded_fields t).1, (RunQueue.markYielded_fields t).2.1⟩
  refine ⟨_, _, inserted, ⟨?_, ?_, ?_, ?_⟩⟩
  · have shape : (front ++ cur :: after).take (front.length + 1) ++ [tid] ++
        (front ++ cur :: after).drop (front.length + 1) = front ++ cur :: tid :: after := by
      rw [List.append_assoc]
      exact result
    rw [shape]
    exact marked.linkAfter fresh _
  · rw [holds.queue.tail_eq]
    simp only [last, eq_comm]
  · rw [before, behind]
    exact written.1
  · rw [before, behind]
    exact written.2

/-- Three queued elements, of which only the first has yielded. -/
def oneYielded : Elems := fun t =>
  if t = 2 then { next := some 3, lastYield := true }
  else if t = 3 then { prev := some 2, next := some 4 }
  else if t = 4 then { prev := some 3 }
  else {}

theorem insertYield_inserts_oneYielded : ∃ q : RunQueue, q.Holds oneYielded [2, 3, 4] ∧
    ∃ elems' q', q.insertYield oneYielded 5 = some (elems', q') ∧ q'.Holds elems' [2, 3, 5, 4] := by
  have holds : RunQueue.Holds { head := some 2, tail := some 4, numElements := 3, numYieldElem := 1 } oneYielded
      [2, 3, 4] :=
    ⟨⟨⟨rfl, rfl, rfl, rfl⟩, ⟨rfl, rfl, trivial⟩, rfl, by decide⟩, rfl⟩
  have fresh : 5 ∉ [2, 3, 4] := by decide
  obtain ⟨elems', q', inserted, there⟩ := insertYield_inserts holds (by decide) rfl fresh
  exact ⟨_, holds, elems', q', inserted, there.holds⟩

end MinSmt
