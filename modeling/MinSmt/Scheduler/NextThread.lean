/-
**Choosing the next thread terminates** (`RRScheduler::nextRunnable`: "This loop is guaranteed to finish").

A round of the loop looks at the front of one of the two run queues: it drops a front that is in an
external call, moves a front of another role to the end, or returns it. Between two rounds other threads
write the status of their own elements, without the turn.

* `Sched.nextRunnableLoop` — the loop, over what the other threads write before each round.
* `Sched.CanChoose` — the queues are proper lists; the idle thread is in `runq` or in `waitq` and makes
  no external call; with `CURRENT_ROLE` the caller is in `runq` and runnable, and the threads in `runq`
  have roles.
* `Sched.Chooses` — what one round can do in such a state; `chooses_nextRunnable` — every round is like
  that.
* `loop_lengths`, `loop_role` — the two measures: the elements of both queues, and with `CURRENT_ROLE` the
  position of the caller.
* **`next_runnable_finishes`**.
-/

import MinSmt.Scheduler.IdleThread
import MinSmt.Scheduler.Conservation
import Mathlib.Data.List.Rotate

namespace MinSmt

open MinSmt.Library

namespace Sched

/-- The statuses that threads without the turn write, in this order. -/
def interfere (s : Sched) (writes : List (Tid × ThdStatus)) : Sched :=
  writes.foldl (fun s write => s.setStatus write.1 write.2) s

/-- **The loop of `RRScheduler::nextRunnable`**, with what the other threads write before each round.
The states in which a round was started, and how the last round ended; `none` when more rounds are
needed. -/
def nextRunnableLoop (o : Options) (idleDone : Bool) (self : Tid) (atThreadEnd : Bool) :
    List (List (Tid × ThdStatus)) → Sched → Strategy → List Sched × Option Pick
  | [], _, _ => ([], none)
  | writes :: later, s, strategy =>
    match (s.interfere writes).nextRunnable o idleDone self atThreadEnd strategy with
    | .again s' strategy' =>
      let rest := nextRunnableLoop o idleDone self atThreadEnd later s' strategy'
      (s.interfere writes :: rest.1, rest.2)
    | pick => ([s.interfere writes], some pick)

/-! ### What the other threads write -/

section Interfere

variable {s : Sched} {runq hp : List Tid} {t : Tid}

@[simp] theorem interfere_cons (s : Sched) (write : Tid × ThdStatus) (writes : List (Tid × ThdStatus)) :
    s.interfere (write :: writes) = (s.setStatus write.1 write.2).interfere writes := rfl

@[simp] theorem interfere_toCore (s : Sched) (writes : List (Tid × ThdStatus)) :
    (s.interfere writes).toCore = s.toCore := by
  induction writes generalizing s with
  | nil => rfl
  | cons write writes ih => rw [interfere_cons, ih, setStatus]

theorem interfere_linked (linked : Linked s.elems s.runq s.hpRunq runq hp) (writes : List (Tid × ThdStatus)) :
    Linked (s.interfere writes).elems (s.interfere writes).runq (s.interfere writes).hpRunq runq hp := by
  induction writes generalizing s with
  | nil => exact linked
  | cons write writes ih =>
    rw [interfere_cons]
    exact ih (linked.setStatus write.1 write.2)

/-- A thread whose status nobody writes keeps it. -/
theorem interfere_status {writes : List (Tid × ThdStatus)} (spared : ∀ write ∈ writes, write.1 ≠ t) :
    ((s.interfere writes).elems t).status = (s.elems t).status := by
  induction writes generalizing s with
  | nil => rfl
  | cons write writes ih =>
    have other : t ≠ write.1 := (spared write List.mem_cons_self).symm
    rw [interfere_cons, ih fun write member => spared write (List.mem_cons_of_mem _ member),
      setStatus_of_ne other]

end Interfere

/-! ### One round -/

/-- **The states in which the next thread can be chosen.** -/
structure CanChoose (s : Sched) (caller : Tid) (strategy : Strategy) (runq hp : List Tid) : Prop where
  linked : Linked s.elems s.runq s.hpRunq runq hp
  idle : idleThreadTid ∈ runq ∨ idleThreadTid ∈ s.waitq
  awake : (s.elems idleThreadTid).status ≠ .interProStop
  role : strategy = .currentRole →
    caller ∈ runq ∧ (s.elems caller).status = .runnable ∧ ∀ t ∈ runq, (s.tm.tToR t).isSome = true

/-- **What a round can do.** -/
inductive Chooses (s : Sched) (self : Tid) (atThreadEnd : Bool) (strategy : Strategy) (runq hp : List Tid) :
    Pick → Prop
  | dropped {s' : Sched} {head : Tid} {rest : List Tid} (isRunq : runq = head :: rest)
      (stopped : (s.elems head).status = .interProStop) (linked : Linked s'.elems s'.runq s'.hpRunq rest hp)
      (core : s'.toCore = s.toCore) (status : ∀ t, (s'.elems t).status = (s.elems t).status) :
      Chooses s self atThreadEnd strategy runq hp (.again s' strategy)
  | droppedHp {s' : Sched} {head : Tid} {rest : List Tid} (isHp : hp = head :: rest)
      (notRole : strategy ≠ .currentRole) (linked : Linked s'.elems s'.runq s'.hpRunq runq rest)
      (core : s'.toCore = s.toCore) (status : ∀ t, (s'.elems t).status = (s.elems t).status) :
      Chooses s self atThreadEnd strategy runq hp (.again s' strategy)
  | rotated {s' : Sched} {head : Tid} {rest : List Tid} (isRunq : runq = head :: rest)
      (isRole : strategy = .currentRole) (other : head ≠ self)
      (linked : Linked s'.elems s'.runq s'.hpRunq (rest ++ [head]) hp) (core : s'.toCore = s.toCore)
      (status : ∀ t, (s'.elems t).status = (s.elems t).status) :
      Chooses s self atThreadEnd strategy runq hp (.again s' strategy)
  | granted {s' : Sched} {next : Tid}
      (ofRole : strategy = .currentRole → runq.head? = some next ∧ s.tm.tToR next = s.tm.tToR self ∧
        Linked s'.elems s'.runq s'.hpRunq runq hp ∧ s'.toCore = s.toCore) :
      Chooses s self atThreadEnd strategy runq hp (.grant s' next)
  | ended (notRole : strategy ≠ .currentRole) (atEnd : atThreadEnd = true) :
      Chooses s self atThreadEnd strategy runq hp .invalid

section Round

variable {o : Options} {s s' : Sched} {self head : Tid} {atThreadEnd : Bool} {strategy : Strategy}
  {runq hp rest : List Tid}

theorem noteRemoved_toCore (s : Sched) (t : Tid) : (s.noteRemoved o t).toCore = s.toCore := by
  unfold noteRemoved enterNonDet
  split <;> rfl

theorem noteRemoved_queues (s : Sched) (t : Tid) : (s.noteRemoved o t).elems = s.elems ∧
    (s.noteRemoved o t).runq = s.runq ∧ (s.noteRemoved o t).hpRunq = s.hpRunq := by
  unfold noteRemoved enterNonDet
  split <;> exact ⟨rfl, rfl, rfl⟩

/-- `runq.pop_front`, of a queue that is not empty. -/
theorem popRunq_linked (linked : Linked s.elems s.runq s.hpRunq (head :: rest) hp) :
    ∃ s', s.popRunq = some s' ∧ Linked s'.elems s'.runq s'.hpRunq rest hp ∧ s'.toCore = s.toCore ∧
      ∀ t, (s'.elems t).status = (s.elems t).status := by
  obtain ⟨elems, q, popped, linked', status⟩ := linked.popFront
  refine ⟨{ s with elems := elems, runq := q }, ?_, linked', rfl, status⟩
  rw [popRunq, popped]
  rfl

/-- `hp_runq.pop_front`, of a queue that is not empty. -/
theorem popHpRunq_linked (linked : Linked s.elems s.runq s.hpRunq runq (head :: rest)) :
    ∃ s', s.popHpRunq = some s' ∧ Linked s'.elems s'.runq s'.hpRunq runq rest ∧ s'.toCore = s.toCore ∧
      ∀ t, (s'.elems t).status = (s.elems t).status := by
  obtain ⟨elems, q, popped, linked', status⟩ := linked.symm.popFront
  refine ⟨{ s with elems := elems, hpRunq := q }, ?_, linked'.symm, rfl, status⟩
  rw [popHpRunq, popped]
  rfl

theorem grantHead_linked (linked : Linked s.elems s.runq s.hpRunq runq hp) (t : Tid) :
    Linked (s.grantHead t).elems (s.grantHead t).runq (s.grantHead t).hpRunq runq hp ∧
      (s.grantHead t).toCore = s.toCore := by
  unfold grantHead
  split
  · exact ⟨linked.setStatus _ _, rfl⟩
  · exact ⟨linked, rfl⟩

/-- A stopped front of `runq` is dropped. -/
theorem chooses_drop (linked : Linked s.elems s.runq s.hpRunq (head :: rest) hp)
    (stopped : (s.elems head).status = .interProStop) :
    ∃ s', s.popRunq = some s' ∧
      Chooses s self atThreadEnd strategy (head :: rest) hp (.again (s'.noteRemoved o head) strategy) := by
  obtain ⟨s', popped, linked', core, status⟩ := popRunq_linked linked
  obtain ⟨elems, runq, hpRunq⟩ := @noteRemoved_queues o s' head
  refine ⟨s', popped, .dropped rfl stopped ?_ ?_ fun t => ?_⟩
  · rw [elems, runq, hpRunq]
    exact linked'
  · rw [noteRemoved_toCore, core]
  · rw [elems]
    exact status t

theorem chooses_pickHp (linked : Linked s.elems s.runq s.hpRunq runq (head :: rest))
    (notRole : strategy ≠ .currentRole) :
    Chooses s self atThreadEnd strategy runq (head :: rest) (s.pickHp o strategy) := by
  unfold pickHp
  rw [linked.second.head_eq]
  show Chooses s self atThreadEnd strategy runq (head :: rest)
    (if (s.elems head).status = .interProStop then _ else _)
  split
  · obtain ⟨s', popped, linked', core, status⟩ := popHpRunq_linked linked
    obtain ⟨elems, runq', hpRunq⟩ := @noteRemoved_queues o s' head
    rw [popped]
    refine .droppedHp rfl notRole ?_ ?_ fun t => ?_
    · rw [elems, runq', hpRunq]
      exact linked'
    · rw [noteRemoved_toCore, core]
    · rw [elems]
      exact status t
  · exact .granted fun isRole => absurd isRole notRole

theorem chooses_pickRunq (linked : Linked s.elems s.runq s.hpRunq (head :: rest) hp)
    (notRole : strategy ≠ .currentRole) :
    Chooses s self atThreadEnd strategy (head :: rest) hp (s.pickRunq o strategy) := by
  unfold pickRunq
  rw [linked.queue.head_eq]
  show Chooses s self atThreadEnd strategy (head :: rest) hp
    (if (s.elems head).status = .interProStop then _ else _)
  split
  · rename_i stopped
    obtain ⟨s', popped, drops⟩ := @chooses_drop o s self head atThreadEnd _ hp rest linked stopped
    rw [popped]
    exact drops
  · exact .granted fun isRole => absurd isRole notRole

/-- A front that is not in an external call is returned, whatever the queues look like. -/
theorem pickRunq_grants (isHead : s.runq.head = some head) (awake : (s.elems head).status ≠ .interProStop) :
    s.pickRunq o strategy = .grant (s.grantHead head) head := by
  unfold pickRunq
  rw [isHead]
  show (if (s.elems head).status = .interProStop then _ else _) = _
  rw [if_neg awake]

/-- The front that `CURRENT_ROLE` looks at. -/
theorem chooses_pickRole (can : CanChoose s self .currentRole runq hp) :
    Chooses s self atThreadEnd .currentRole runq hp (s.pickRole o self .currentRole) := by
  obtain ⟨member, runnable, known⟩ := can.role rfl
  obtain ⟨role, isRole⟩ := Option.isSome_iff_exists.mp (known self member)
  cases runq with
  | nil => cases member
  | cons head rest =>
    obtain ⟨headRole, isHeadRole⟩ := Option.isSome_iff_exists.mp (known head List.mem_cons_self)
    have linked := can.linked
    unfold pickRole
    rw [isRole, linked.queue.head_eq]
    show Chooses s self atThreadEnd .currentRole (head :: rest) hp
      (if (s.elems head).status = .interProStop then _ else _)
    split
    · rename_i stopped
      obtain ⟨s', popped, drops⟩ := @chooses_drop o s self head atThreadEnd _ hp rest linked stopped
      rw [popped]
      exact drops
    · rw [isHeadRole]
      show Chooses s self atThreadEnd .currentRole (head :: rest) hp (if role = headRole then _ else _)
      split
      · rename_i same
        obtain ⟨linked', core⟩ := grantHead_linked linked head
        exact .granted fun _ => ⟨rfl, by rw [isRole, isHeadRole, same], linked', core⟩
      · rename_i different
        obtain ⟨s', popped, linked', core, status⟩ := popRunq_linked linked
        have notRest : head ∉ rest := (List.nodup_cons.mp linked.queue.queue.nodup).1
        have pushed := linked'.pushBack notRest (linked.apart head List.mem_cons_self)
        rw [popped]
        refine .rotated rfl rfl ?_ pushed core fun t => ?_
        · rintro rfl
          rw [isRole] at isHeadRole
          exact different (Option.some.inj isHeadRole)
        · exact (RunQueue.pushBack_status _ _ _ _).trans (status t)

/-! ### The two special cases of an empty or nearly empty `runq` -/

/-- The front of `runq` stays when threads are made runnable. -/
theorem foldl_makeRunnable_head (woken : List Tid) (isHead : s.runq.head = some head) :
    (woken.foldl (makeRunnable o) s).runq.head = some head ∧
      ∀ t, ((woken.foldl (makeRunnable o) s).elems t).status = (s.elems t).status := by
  induction woken generalizing s with
  | nil => exact ⟨isHead, fun _ => rfl⟩
  | cons tid woken ih =>
    have kept : (s.makeRunnable o tid).runq.head = some head ∧
        ∀ t, ((s.makeRunnable o tid).elems t).status = (s.elems t).status := by
      unfold makeRunnable
      split
      · split
        · exact ⟨isHead, fun t => RunQueue.pushBack_status _ _ _ _⟩
        · refine ⟨?_, fun t => RunQueue.pushBack_status _ _ _ _⟩
          simp [pushRunq, RunQueue.pushBack, isHead]
      · exact ⟨isHead, fun _ => rfl⟩
    obtain ⟨still, status⟩ := ih kept.1
    exact ⟨still, fun t => (status t).trans (kept.2 t)⟩

/-- With `runq` empty the idle thread is its front once it is awake. -/
theorem wakeUpIdleThread_head (rr : 0 ≤ o.enforceTurnType) (waits : idleThreadTid ∈ s.waitq)
    (isEmpty : s.runq.head = none) : (s.wakeUpIdleThread o).runq.head = some idleThreadTid ∧
      ∀ t, ((s.wakeUpIdleThread o).elems t).status = (s.elems t).status := by
  have woken : s.toCore.wakeIdle.2 = [idleThreadTid] := by
    show (scan _ _ false s.waits s.waitq).woken = _
    rw [scan_woken_one]
    have found : (s.waitq.find? fun t => t == idleThreadTid) = some idleThreadTid := by
      cases isFound : s.waitq.find? fun t => t == idleThreadTid with
      | none => simpa using List.find?_eq_none.mp isFound _ waits
      | some t =>
        have isIdle : (t == idleThreadTid) = true := @List.find?_some _ (fun t => t == idleThreadTid) _ _ isFound
        rw [eq_of_beq isIdle]
    rw [found]
    rfl
  simp only [wakeUpIdleThread, woken, List.foldl_cons, List.foldl_nil, if_pos rr]
  exact ⟨by simp [pushRunq, RunQueue.pushBack, isEmpty], fun t => RunQueue.pushBack_status _ _ _ _⟩

/-- **Every round.** -/
theorem chooses_nextRunnable (rr : 0 ≤ o.enforceTurnType) (launched : o.launchIdleThread ≠ 0)
    (can : CanChoose s self strategy runq hp) :
    Chooses s self atThreadEnd strategy runq hp (s.nextRunnable o false self atThreadEnd strategy) := by
  unfold nextRunnable
  split
  · rename_i fromHp
    cases hp with
    | nil =>
      have empty := can.linked.second.empty_iff.mpr rfl
      rw [fromHp.2.1] at empty
      cases empty
    | cons head rest => exact chooses_pickHp can.linked fromHp.2.2.2
  · split
    · rename_i byRole
      obtain ⟨rfl, -⟩ := byRole
      exact chooses_pickRole can
    · rename_i notByRole
      have notRole : strategy ≠ .currentRole := by
        intro isRole
        have member := (can.role isRole).1
        refine notByRole ⟨isRole, Bool.eq_false_iff.mpr fun empty => ?_⟩
        rw [can.linked.queue.empty_iff.mp empty] at member
        cases member
      split
      · rename_i isEmpty
        obtain rfl := can.linked.queue.empty_iff.mp isEmpty
        split
        · rename_i atEnd
          exact .ended notRole atEnd.1
        · obtain ⟨front, status⟩ := wakeUpIdleThread_head rr
            (can.idle.resolve_left List.not_mem_nil) can.linked.queue.head_eq
          rw [if_neg Bool.false_ne_true,
            pickRunq_grants front ((status idleThreadTid).trans_ne can.awake)]
          exact .granted fun isRole => absurd isRole notRole
      · rename_i nonempty
        split
        · rename_i releases
          obtain ⟨front, status⟩ := foldl_makeRunnable_head (o := o)
            (s := { s with toCore := (s.toCore.signal .nonDetCV true).1 })
            (s.toCore.signal .nonDetCV true).2 releases.2.2.2.2
          have grants := @pickRunq_grants o (s.signal o .nonDetCV true) idleThreadTid strategy front
            ((status idleThreadTid).trans_ne can.awake)
          rw [grants]
          exact .granted fun isRole => absurd isRole notRole
        · cases runq with
          | nil => exact absurd (can.linked.queue.empty_iff.mpr rfl) nonempty
          | cons head rest => exact chooses_pickRunq can.linked notRole

end Round

/-! ### The loop -/

section Loop

variable {o : Options} {s s' : Sched} {self : Tid} {atThreadEnd : Bool} {strategy : Strategy} {runq hp : List Tid}
  {writes : List (Tid × ThdStatus)} {rounds : List (List (Tid × ThdStatus))}

/-- The writes of threads other than the caller and the idle thread. -/
def Aside (self : Tid) (writes : List (Tid × ThdStatus)) : Prop :=
  ∀ write ∈ writes, write.1 ≠ self ∧ write.1 ≠ idleThreadTid

instance (self : Tid) (writes : List (Tid × ThdStatus)) : Decidable (Aside self writes) :=
  inferInstanceAs (Decidable (∀ write ∈ writes, _))

theorem CanChoose.interfere (can : CanChoose s self strategy runq hp) (aside : Aside self writes) :
    CanChoose (s.interfere writes) self strategy runq hp := by
  refine ⟨interfere_linked can.linked writes, ?_, ?_, fun isRole => ?_⟩
  · rw [interfere_toCore]
    exact can.idle
  · rw [interfere_status fun write member => (aside write member).2]
    exact can.awake
  · rw [interfere_status fun write member => (aside write member).1, interfere_toCore]
    exact can.role isRole

/-- After a round that goes on, another one can be made. -/
theorem CanChoose.again (can : CanChoose s self strategy runq hp) {runq' hp' : List Tid}
    (linked : Linked s'.elems s'.runq s'.hpRunq runq' hp') (core : s'.toCore = s.toCore)
    (status : ∀ t, (s'.elems t).status = (s.elems t).status)
    (kept : ∀ t ∈ runq, (s.elems t).status ≠ .interProStop → t ∈ runq') (fewer : ∀ t ∈ runq', t ∈ runq) :
    CanChoose s' self strategy runq' hp' := by
  refine ⟨linked, ?_, ?_, fun isRole => ?_⟩
  · rw [core]
    exact can.idle.imp_left fun member => kept _ member can.awake
  · rw [status]
    exact can.awake
  · obtain ⟨member, runnable, known⟩ := can.role isRole
    rw [status, core]
    exact ⟨kept self member (by rw [runnable]; nofun), runnable, fun t inside => known t (fewer t inside)⟩

theorem CanChoose.dropped {head : Tid} {rest : List Tid} (can : CanChoose s self strategy (head :: rest) hp)
    (stopped : (s.elems head).status = .interProStop) (linked : Linked s'.elems s'.runq s'.hpRunq rest hp)
    (core : s'.toCore = s.toCore) (status : ∀ t, (s'.elems t).status = (s.elems t).status) :
    CanChoose s' self strategy rest hp :=
  can.again linked core status (fun _ member awake => mem_rest stopped member awake)
    fun _ => List.mem_cons_of_mem head

theorem loop_again
    (again : (s.interfere writes).nextRunnable o false self atThreadEnd strategy = .again s' strategy) :
    nextRunnableLoop o false self atThreadEnd (writes :: rounds) s strategy =
      (s.interfere writes :: (nextRunnableLoop o false self atThreadEnd rounds s' strategy).1,
        (nextRunnableLoop o false self atThreadEnd rounds s' strategy).2) := by
  rw [nextRunnableLoop, again]

/-- **The thread that `CURRENT_ROLE` returns**: it has the caller's role and is at the front of `runq`,
which is a rotation of what it was, less threads that were in an external call at one of the rounds. -/
structure ByRole (s : Sched) (caller : Tid) (runq hp : List Tid) (visited : List Sched) (s' : Sched) (next : Tid) :
    Prop where
  core : s'.toCore = s.toCore
  role : s.tm.tToR next = s.tm.tToR caller
  rotation : ∃ kept runq' : List Tid, kept.Sublist runq ∧ kept.IsRotated runq' ∧
    Linked s'.elems s'.runq s'.hpRunq runq' hp ∧ runq'.head? = some next ∧
    ∀ t ∈ runq, t ∉ kept → ∃ middle ∈ visited, (middle.elems t).status = .interProStop

namespace ByRole

variable {next head : Tid} {rest : List Tid} {visited : List Sched} {middle before : Sched}

/-- The same, when a stopped front was dropped before. -/
theorem dropped (byRole : ByRole s self rest hp visited s' next) (core : s.toCore = before.toCore)
    (stopped : (middle.elems head).status = .interProStop) :
    ByRole before self (head :: rest) hp (middle :: visited) s' next := by
  obtain ⟨sameCore, role, kept, runq', sub, rotates, linked, front, gone⟩ := byRole
  rw [core] at sameCore role
  refine ⟨sameCore, role, kept, runq', sub.cons head, rotates, linked, front, fun t member outside => ?_⟩
  rcases List.mem_cons.mp member with rfl | inside
  · exact ⟨middle, List.mem_cons_self, stopped⟩
  · obtain ⟨seen, among, wasStopped⟩ := gone t inside outside
    exact ⟨seen, List.mem_cons_of_mem _ among, wasStopped⟩

/-- The same, when the front was moved to the end before. -/
theorem rotated (byRole : ByRole s self (rest ++ [head]) hp visited s' next) (core : s.toCore = before.toCore) :
    ByRole before self (head :: rest) hp (middle :: visited) s' next := by
  obtain ⟨sameCore, role, kept, runq', sub, rotates, linked, front, gone⟩ := byRole
  rw [core] at sameCore role
  -- what is kept of the rotated queue, rotated back
  obtain ⟨first, last, rfl, subRest, subHead⟩ := List.sublist_append_iff.mp sub
  refine ⟨sameCore, role, last ++ first, runq', subHead.append subRest,
    List.isRotated_append.trans rotates, linked,
    front, fun t member outside => ?_⟩
  have member' : t ∈ rest ++ [head] := by simpa [or_comm] using member
  obtain ⟨seen, among, wasStopped⟩ := gone t member' (by simpa [or_comm] using outside)
  exact ⟨seen, List.mem_cons_of_mem _ among, wasStopped⟩

end ByRole

variable (rr : 0 ≤ o.enforceTurnType) (launched : o.launchIdleThread ≠ 0)

include rr launched

/-- **Every round that goes on drops an element**, unless fronts of other roles are moved to the end. -/
theorem loop_lengths (can : CanChoose s self strategy runq hp) (notRole : strategy ≠ .currentRole)
    (aside : ∀ writes ∈ rounds, Aside self writes) (enough : runq.length + hp.length < rounds.length) :
    ∃ pick, (nextRunnableLoop o false self atThreadEnd rounds s strategy).2 = some pick ∧
      ((∃ s' next, pick = .grant s' next) ∨ pick = .invalid ∧ atThreadEnd = true) := by
  induction rounds generalizing s runq hp with
  | nil => cases enough
  | cons writes rounds ih =>
    have later : ∀ writes ∈ rounds, Aside self writes :=
      fun writes member => aside writes (List.mem_cons_of_mem _ member)
    have now := can.interfere (aside writes List.mem_cons_self)
    have chooses := @chooses_nextRunnable o _ self atThreadEnd strategy runq hp rr launched now
    rw [List.length_cons] at enough
    generalize isPick : (s.interfere writes).nextRunnable o false self atThreadEnd strategy = pick at chooses
    cases chooses with
    | dropped isRunq stopped linked core status =>
      subst isRunq
      rw [loop_again isPick]
      rw [List.length_cons] at enough
      exact ih (now.dropped stopped linked core status) later (by omega)
    | droppedHp isHp notRole linked core status =>
      subst isHp
      rw [loop_again isPick]
      rw [List.length_cons] at enough
      exact ih (now.again linked core status (fun _ member _ => member) fun _ => id) later (by omega)
    | rotated isRunq isRole => exact absurd isRole notRole
    | granted =>
      rw [nextRunnableLoop, isPick]
      exact ⟨_, rfl, Or.inl ⟨_, _, rfl⟩⟩
    | ended _ atEnd =>
      rw [nextRunnableLoop, isPick]
      exact ⟨_, rfl, Or.inr ⟨rfl, atEnd⟩⟩

/-- **Every round that goes on brings the caller forward**, with `CURRENT_ROLE`. -/
theorem loop_role {k : Nat} (can : CanChoose s self .currentRole runq hp) (position : runq[k]? = some self)
    (aside : ∀ writes ∈ rounds, Aside self writes) (enough : k < rounds.length) :
    ∃ s' next, (nextRunnableLoop o false self atThreadEnd rounds s .currentRole).2 = some (.grant s' next) ∧
      ByRole s self runq hp (nextRunnableLoop o false self atThreadEnd rounds s .currentRole).1 s' next := by
  induction rounds generalizing s runq k with
  | nil => cases enough
  | cons writes rounds ih =>
    have later : ∀ writes ∈ rounds, Aside self writes :=
      fun writes member => aside writes (List.mem_cons_of_mem _ member)
    have now := can.interfere (aside writes List.mem_cons_self)
    have sameCore := interfere_toCore s writes
    have chooses := @chooses_nextRunnable o _ self atThreadEnd .currentRole runq hp rr launched now
    generalize isPick : (s.interfere writes).nextRunnable o false self atThreadEnd .currentRole = pick at chooses
    cases chooses with
    | @dropped _ head rest isRunq stopped linked core status =>
      subst isRunq
      obtain ⟨-, runnable, -⟩ := now.role rfl
      -- the caller is not the front that is dropped
      have notHead : head ≠ self := by
        rintro rfl
        rw [stopped] at runnable
        cases runnable
      cases k with
      | zero => exact absurd (Option.some.inj position) notHead
      | succ k =>
        obtain ⟨s', next, found, byRole⟩ := ih (now.dropped stopped linked core status) position later
          (Nat.lt_of_succ_lt_succ enough)
        rw [loop_again isPick]
        exact ⟨s', next, found, byRole.dropped (core.trans sameCore) stopped⟩
    | droppedHp _ notRole => exact absurd rfl notRole
    | @rotated _ head rest isRunq _ other linked core status =>
      subst isRunq
      cases k with
      | zero => exact absurd (Option.some.inj position) other
      | succ k =>
        have inside : k < rest.length := Nat.lt_of_succ_lt_succ (List.getElem?_eq_some_iff.mp position).1
        have position' : (rest ++ [head])[k]? = some self := by
          rw [List.getElem?_append_left inside]
          exact position
        have can' := now.again linked core status
          (fun t member _ => by simpa [or_comm] using member) fun t member => by simpa [or_comm] using member
        obtain ⟨s', next, found, byRole⟩ := ih can' position' later (Nat.lt_of_succ_lt_succ enough)
        rw [loop_again isPick]
        exact ⟨s', next, found, byRole.rotated (core.trans sameCore)⟩
    | granted ofRole =>
      obtain ⟨front, role, linked, core⟩ := ofRole rfl
      rw [sameCore] at role core
      rw [nextRunnableLoop, isPick]
      exact ⟨_, _, rfl, core, role, runq, runq, List.Sublist.refl runq, List.IsRotated.refl runq, linked, front,
        fun t member outside => absurd member outside⟩
    | ended notRole => exact absurd rfl notRole

end Loop

end Sched

open Sched

/-- **Choosing the next thread terminates.** The two queues are lists that share no element; the idle
thread, which makes no external call, is in `runq` or `waitq`; with `CURRENT_ROLE` the caller is in
`runq` and runnable. Whatever the other threads write to their statuses between the rounds, the loop
ends within as many rounds as both queues have elements and one more: it returns a thread, or no thread
at the end of one, and never follows the front of an empty queue. With `CURRENT_ROLE` the thread
returned has the caller's role, and `runq` is then a rotation of what it was, less threads that were
stopped at one of the rounds. -/
theorem next_runnable_finishes (o : Options) (rr : o.RoundRobin) (launched : o.launchIdleThread ≠ 0) (s : Sched)
    (self : Tid) (atThreadEnd : Bool) (strategy : Strategy) (runq hp : List Tid)
    (can : CanChoose s self strategy runq hp) (rounds : List (List (Tid × ThdStatus)))
    (aside : ∀ writes ∈ rounds, Aside self writes) (enough : runq.length + hp.length < rounds.length) :
    (∃ pick, (nextRunnableLoop o false self atThreadEnd rounds s strategy).2 = some pick ∧
      ((∃ s' next, pick = .grant s' next) ∨ pick = .invalid ∧ atThreadEnd = true)) ∧
    (strategy = .currentRole →
      ∃ s' next, (nextRunnableLoop o false self atThreadEnd rounds s strategy).2 = some (.grant s' next) ∧
        ByRole s self runq hp (nextRunnableLoop o false self atThreadEnd rounds s strategy).1 s' next) := by
  by_cases isRole : strategy = .currentRole
  · subst isRole
    obtain ⟨k, inside, position⟩ := List.getElem_of_mem (can.role rfl).1
    have chosen := @loop_role o s self atThreadEnd runq hp rounds rr.nonneg launched k can
      (List.getElem?_eq_some_iff.mpr ⟨inside, position⟩) aside (by omega)
    obtain ⟨s', next, found, -⟩ := id chosen
    exact ⟨⟨_, found, Or.inl ⟨s', next, rfl⟩⟩, fun _ => chosen⟩
  · exact ⟨loop_lengths rr.nonneg launched can isRole aside enough, fun same => absurd same isRole⟩

/-- The main thread, with threads `1` and `2` behind it, gives the turn up for one of its own role. -/
def keepRole : List (Tid × Action) :=
  enterTurn 0 ++ [(0, .create 101 7), (0, .create 102 8), (0, .putTurn .currentRole), (0, .checkWakeup [])]

/-- Thread `1` is passed over, thread `2` starts an external call and is dropped. -/
theorem next_runnable_finishes_keepRole : ∃ s runq s' next,
    exec (Sys.step { wakeamapPlus := true }) (Sys.init { wakeamapPlus := true } 100) keepRole = some s ∧
      runq = [1, 2, 0] ∧
      (nextRunnableLoop { wakeamapPlus := true } false 0 false [[], [(2, .interProStop)], [], []] s.sched
        .currentRole).2 = some (.grant s' next) ∧
      ByRole s.sched 0 runq [] (nextRunnableLoop { wakeamapPlus := true } false 0 false
        [[], [(2, .interProStop)], [], []] s.sched .currentRole).1 s' next := by
  have found : (exec (Sys.step { wakeamapPlus := true }) (Sys.init { wakeamapPlus := true } 100) keepRole).any
      (fun s => decide (s.sched.runq.head = some 1 ∧ (s.sched.elems 1).next = some 2 ∧
        (s.sched.elems 2).next = some 0 ∧ (s.sched.elems 0).next = none ∧
        (s.sched.elems 1).status ≠ .interProStop ∧ (s.sched.elems 0).status = .runnable ∧
        ([1, 2, 0].all fun t => (s.sched.tm.tToR t).isSome) = true)) = true := by decide +kernel
  obtain ⟨s, ran, facts⟩ := exec_of_any found
  obtain ⟨head, next₁, next₂, last, awake, runnable, known⟩ := of_decide_eq_true facts
  obtain ⟨runq, hp, holder, inv⟩ : Inv.Holds { wakeamapPlus := true } ⟨False, False⟩ s := by
    have along := @along_of_labels _ _ (Sys.step { wakeamapPlus := true }) (fun _ => True) keepRole
      (fun _ _ => trivial)
    refine Inv.run (by decide) (fun s label holds _ => ?_) (along _) ran
    obtain ⟨_, _, _, inv⟩ := holds
    exact ⟨queueSafe_of_off (by decide) inv rfl label, False.elim, False.elim⟩
  have isRunq : runq = [1, 2, 0] := by
    refine Forward.unique inv.layout.linked.queue.forward ?_
    simp [head, next₁, next₂, last]
  have linked := inv.layout.linked
  rw [isRunq, inv.layout.off rfl] at linked
  have can : CanChoose s.sched 0 .currentRole [1, 2, 0] [] :=
    ⟨linked, Or.inl (by decide), awake, fun _ => ⟨by decide, runnable, List.all_eq_true.mp known⟩⟩
  obtain ⟨s', next, chosen⟩ := (next_runnable_finishes { wakeamapPlus := true } (by decide) (by decide) s.sched 0
    false .currentRole [1, 2, 0] [] can [[], [(2, .interProStop)], [], []] (by decide) (by decide)).2 rfl
  exact ⟨s, _, s', next, ran, rfl, chosen⟩

/-! ### Broken queues -/

/-- The round follows a null pointer. -/
def Sched.Pick.crashes : Pick → Bool
  | .crash => true
  | _ => false

theorem Sched.Pick.eq_crash {pick : Pick} (crashes : pick.crashes = true) : pick = .crash := by
  cases pick with
  | crash => rfl
  | _ => cases crashes

/-- **The front of an empty queue is followed**: `runq` has lost its elements and still counts them. -/
theorem broken_queue_has_no_front : twoQueuesIdle.RoundRobin ∧ twoQueuesIdle.launchIdleThread ≠ 0 ∧
    ∃ s, exec (Sys.step twoQueuesIdle) (Sys.init twoQueuesIdle 100)
        (twiceQueued ++ (idleThreadTid, .idleCondWait []) :: fiveReserved) = some s ∧
      s.pc idleThreadTid = .leaving .picking false .default .idling ∧ idleThreadTid ∈ s.sched.waitq ∧
      (s.sched.elems idleThreadTid).status ≠ .interProStop ∧
      (nextRunnableLoop twoQueuesIdle false idleThreadTid false [[]] s.sched .default).2 = some .crash := by
  have found : (exec (Sys.step twoQueuesIdle) (Sys.init twoQueuesIdle 100)
      (twiceQueued ++ (idleThreadTid, .idleCondWait []) :: fiveReserved)).any (fun s =>
        decide (s.pc idleThreadTid = .leaving .picking false .default .idling ∧ idleThreadTid ∈ s.sched.waitq ∧
          (s.sched.elems idleThreadTid).status ≠ .interProStop) &&
        (nextRunnableLoop twoQueuesIdle false idleThreadTid false [[]] s.sched .default).2.any
          Pick.crashes) = true := by decide +kernel
  obtain ⟨s, ran, facts⟩ := exec_of_any found
  obtain ⟨here, crashed⟩ := Bool.and_eq_true_iff.mp facts
  obtain ⟨place, waits, awake⟩ := of_decide_eq_true here
  obtain ⟨pick, isPick, crashes⟩ := (Option.any_eq_true _ _).mp crashed
  rw [Pick.eq_crash crashes] at isPick
  exact ⟨by decide, by decide, s, ran, place, waits, awake, isPick⟩

end MinSmt
