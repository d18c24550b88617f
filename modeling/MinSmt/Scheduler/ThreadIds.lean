/-
**Threads that come and go** (`TidMap` in `include/tern/runtime/scheduler.h`).

The run queue has an element slot and the scheduler a wait slot for the tids below `MAX_THREAD_NUM`; the
assertions that check the bound are compiled out. `TidMap.step` is what the creation, end, join or
detach of a thread does to the maps. A new thread's handle is that of no live thread; a handle may come
back.

* `Paired m` — the two maps are inverse to each other, and only tids that were given out are in them.
* **`tids_in_range_iff`** — all tids of a run are below `MAX_THREAD_NUM`, and no two live threads share one,
  exactly when at most `MAX_THREAD_NUM` threads are created in the whole run, the main thread included.
* `churn_exec`, `churn_is_out_of_range` — two threads are alive at a time, and the tid is out of range.
-/

import Mathlib.Data.List.Perm.Subperm
import MinSmt.Library.Run
import MinSmt.Scheduler.QueueRuns
import MinSmt.Scheduler.TidMap

namespace MinSmt

open MinSmt.Library

/-- What happens to threads. -/
inductive ThreadEvent
  | create (th : PthreadT) (roleFunc : ThreadFunc)
  | terminate (tid : Tid)
  | join (th : PthreadT)
  | detach (th : PthreadT)
  deriving DecidableEq, Repr

/-- A thread is created. -/
def ThreadEvent.creates : ThreadEvent → Bool
  | .create _ _ => true
  | _ => false

namespace TidMap

variable {wakeamapPlus : Bool} {m m' : TidMap}

/-- What a thread event does to the maps; `pthread_detach` does not reach them. -/
def step (wakeamapPlus : Bool) (m : TidMap) : ThreadEvent → Option TidMap
  | .create th roleFunc => if m.pToT th = none then some (m.create wakeamapPlus th roleFunc) else none
  | .terminate tid => if m.tToP tid = none then none else some (m.zombify tid)
  | .join th => if m.zombie th then some (m.reap th) else none
  | .detach _ => some m

/-- The tids of the live threads. -/
def alive (m : TidMap) : List Tid := (List.range m.nthread).filter fun tid => (m.tToP tid).isSome

/-- The tid that `create` returns can index `tid_map` and `waits`. -/
def GivesInRange (m : TidMap) (event : ThreadEvent) : Prop :=
  event.creates = true → m.nthread < maxThreadNum

/-- No two live threads share a tid. -/
def OneThreadPerTid (m : TidMap) : Prop :=
  ∀ th th' tid, m.pToT th = some tid → m.pToT th' = some tid → th = th'

/-- **The maps are inverse to each other**, and every tid in them was given out. -/
structure Paired (m : TidMap) : Prop where
  inverse : ∀ th tid, m.pToT th = some tid ↔ m.tToP tid = some th
  given : ∀ tid, m.tToP tid ≠ none → tid < m.nthread

theorem Paired.oneThreadPerTid (paired : m.Paired) : m.OneThreadPerTid := by
  intro th th' tid here there
  have first := (paired.inverse th tid).mp here
  rw [(paired.inverse th' tid).mp there] at first
  exact (Option.some.inj first).symm

theorem Paired.create (paired : m.Paired) {th : PthreadT} (fresh : m.pToT th = none) (roleFunc : ThreadFunc) :
    (m.create wakeamapPlus th roleFunc).Paired := by
  have unused : m.tToP m.nthread = none := by
    by_contra used
    exact Nat.lt_irrefl _ (paired.given _ used)
  refine ⟨fun th' tid => ?_, fun tid live => ?_⟩
  · rw [create_pToT, create_tToP]
    by_cases sameTh : th' = th <;> by_cases sameTid : tid = m.nthread
    · simp [sameTh, sameTid]
    · simp only [sameTh, Function.update_self, Function.update_of_ne sameTid]
      refine iff_of_false (fun h => sameTid (Option.some.inj h).symm) fun h => ?_
      rw [← paired.inverse, fresh] at h
      cases h
    · simp only [sameTid, Function.update_self, Function.update_of_ne sameTh]
      refine iff_of_false (fun h => ?_) fun h => sameTh (Option.some.inj h).symm
      rw [paired.inverse, unused] at h
      cases h
    · simp only [Function.update_of_ne sameTh, Function.update_of_ne sameTid]
      exact paired.inverse th' tid
  · rw [create_nthread]
    rw [create_tToP] at live
    by_cases same : tid = m.nthread
    · exact same ▸ Nat.lt_succ_self _
    · rw [Function.update_of_ne same] at live
      exact Nat.lt_succ_of_lt (paired.given tid live)

theorem zombify_pToT (m : TidMap) (tid : Tid) (th : PthreadT) :
    (m.zombify tid).pToT th = if m.tToP tid = some th then none else m.pToT th := by
  unfold zombify
  cases known : m.tToP tid with
  | none => simp
  | some own =>
    by_cases same : th = own
    · simp [same]
    · simp [same, Ne.symm same]

theorem Paired.zombify (paired : m.Paired) (tid : Tid) : (m.zombify tid).Paired := by
  refine ⟨fun th t => ?_, fun t live => ?_⟩
  · rw [zombify_pToT, zombify_tToP]
    by_cases own : m.tToP tid = some th
    · rw [if_pos own]
      refine iff_of_false (by simp) fun h => ?_
      by_cases same : t = tid
      · simp [same] at h
      · rw [Function.update_of_ne same, ← paired.inverse] at h
        rw [← paired.inverse, h] at own
        exact same (Option.some.inj own)
    · rw [if_neg own, paired.inverse]
      by_cases same : t = tid
      · rw [same, Function.update_self]
        exact iff_of_false own (by simp)
      · rw [Function.update_of_ne same]
  · rw [zombify_tToP] at live
    by_cases same : t = tid
    · simp [same] at live
    · rw [Function.update_of_ne same] at live
      rw [zombify_nthread]
      exact paired.given t live

theorem paired_init (mainTh : PthreadT) : (init wakeamapPlus mainTh).Paired :=
  Paired.create ⟨by simp, by simp⟩ rfl 0

theorem Paired.step (paired : m.Paired) {event : ThreadEvent} (moved : m.step wakeamapPlus event = some m') :
    m'.Paired := by
  cases event with
  | create th roleFunc =>
    simp only [TidMap.step] at moved
    split at moved
    case isTrue fresh =>
      cases moved
      exact paired.create fresh roleFunc
    case isFalse => cases moved
  | terminate tid =>
    simp only [TidMap.step] at moved
    split at moved
    · cases moved
    · cases moved
      exact paired.zombify tid
  | join th =>
    simp only [TidMap.step] at moved
    split at moved
    · cases moved
      exact ⟨paired.inverse, paired.given⟩
    · cases moved
  | detach th =>
    cases moved
    exact paired

/-- Only a creation moves the counter. -/
theorem step_nthread {event : ThreadEvent} (moved : m.step wakeamapPlus event = some m') :
    m'.nthread = m.nthread + if event.creates then 1 else 0 := by
  cases event with
  | create th roleFunc =>
    simp only [TidMap.step] at moved
    split at moved
    · cases moved
      simp [ThreadEvent.creates]
    · cases moved
  | terminate tid =>
    simp only [TidMap.step] at moved
    split at moved
    · cases moved
    · cases moved
      simp [ThreadEvent.creates]
  | join th =>
    simp only [TidMap.step] at moved
    split at moved
    · cases moved
      rfl
    · cases moved
  | detach th =>
    cases moved
    rfl

/-- **All tids given out are in range exactly when few enough threads are created.** -/
theorem givesInRange_iff {final : TidMap} {events : List ThreadEvent} (start : m.nthread ≤ maxThreadNum)
    (run : exec (step wakeamapPlus) m events = some final) :
    Along (step wakeamapPlus) GivesInRange m events ↔
      m.nthread + events.countP ThreadEvent.creates ≤ maxThreadNum := by
  induction events generalizing m with
  | nil => exact iff_of_true trivial (by simpa using start)
  | cons event events ih =>
    obtain ⟨next, moved, rest⟩ := exec_cons run
    have counter := step_nthread moved
    have tail : (∀ next', m.step wakeamapPlus event = some next' →
        Along (step wakeamapPlus) GivesInRange next' events) ↔
        Along (step wakeamapPlus) GivesInRange next events :=
      ⟨fun all => all next moved, fun along next' moved' =>
        Option.some.inj (moved.symm.trans moved') ▸ along⟩
    rw [Along, tail, List.countP_cons, GivesInRange]
    cases creates : event.creates with
    | true =>
      rw [creates, if_pos rfl] at counter
      constructor
      · rintro ⟨inRange, along⟩
        have later := (ih (by have := inRange rfl; omega) rest).mp along
        rw [if_pos rfl]
        omega
      · intro few
        rw [if_pos rfl] at few
        exact ⟨fun _ => by omega, (ih (by omega) rest).mpr (by omega)⟩
    | false =>
      rw [creates] at counter
      have same : next.nthread = m.nthread := by simpa using counter
      rw [ih (same ▸ start) rest, same]
      simp

/-- **The tids of a run are in range and no two live threads share one, exactly when at most
`MAX_THREAD_NUM` threads are created in it**, the main thread included: however many of them are alive at a
time, and whatever handles come back. -/
theorem tids_in_range_iff {mainTh : PthreadT} {final : TidMap} {events : List ThreadEvent}
    (run : exec (step wakeamapPlus) (init wakeamapPlus mainTh) events = some final) :
    (Along (step wakeamapPlus) GivesInRange (init wakeamapPlus mainTh) events ∧
      Throughout (step wakeamapPlus) OneThreadPerTid (init wakeamapPlus mainTh) events) ↔
    1 + events.countP ThreadEvent.creates ≤ maxThreadNum := by
  have unique : Throughout (step wakeamapPlus) OneThreadPerTid (init wakeamapPlus mainTh) events :=
    (throughout_iff_along Paired (fun _ paired => paired.oneThreadPerTid)
      (fun _ _ _ paired _ moved => paired.step moved)
      (fun _ _ _ paired moved => iff_of_true (paired.step moved).oneThreadPerTid trivial)
      (paired_init mainTh) run).mpr (along_of_labels (fun _ _ => trivial) _)
  rw [and_iff_left unique]
  have start : (init wakeamapPlus mainTh).nthread ≤ maxThreadNum := by
    rw [init, create_nthread]
    decide
  exact givesInRange_iff start run

/-- It applies to a run in which a thread is created, ends and is joined, and its handle comes back. -/
theorem tids_in_range_iff_once_more : ∃ final,
    exec (step true) (init true 5) [.create 7 1, .terminate 1, .join 7, .create 7 1] = some final ∧
    Along (step true) GivesInRange (init true 5) [.create 7 1, .terminate 1, .join 7, .create 7 1] := by
  have found : (exec (step true) (init true 5) [.create 7 1, .terminate 1, .join 7, .create 7 1]).any
      (fun _ => true) = true := by decide +kernel
  obtain ⟨final, run, -⟩ := exec_of_any found
  exact ⟨final, run, ((tids_in_range_iff run).mpr (by decide)).1⟩

/-! ### Threads that are created one after the other -/

/-- So many threads, each joined before the next one is created. -/
def churn : Tid → Nat → List ThreadEvent
  | _, 0 => []
  | tid, rounds + 1 => .create 7 1 :: .terminate tid :: .join 7 :: churn (tid + 1) rounds

theorem churn_creates (tid : Tid) (rounds : Nat) :
    (churn tid rounds).countP ThreadEvent.creates = rounds := by
  induction rounds generalizing tid with
  | zero => rfl
  | succ rounds ih =>
    rw [churn, List.countP_cons, List.countP_cons, List.countP_cons, ih]
    rfl

/-- Only the main thread, at handle 5, is alive. -/
structure OnlyMain (m : TidMap) (tid : Tid) : Prop where
  next : m.nthread = tid
  later : 0 < tid
  tToP : m.tToP = Function.update (fun _ => none) 0 (some 5)
  pToT : m.pToT = Function.update (fun _ => none) 5 (some 0)

theorem alive_length_le (tids : List Tid) (only : ∀ t, m.tToP t ≠ none → t ∈ tids) :
    m.alive.length ≤ tids.length := by
  refine (List.Nodup.subperm (List.nodup_range.filter _) fun t inside => ?_).length_le
  exact only t (Option.isSome_iff_ne_none.mp (List.mem_filter.mp inside).2)

theorem OnlyMain.alive_le {tid : Tid} (only : OnlyMain m tid) : m.alive.length ≤ 2 := by
  refine (alive_length_le [0] fun t live => ?_).trans (by decide)
  rw [only.tToP] at live
  by_contra other
  exact live (Function.update_of_ne (by simpa using other) _ _)

/-- One thread is created, ends and is joined. -/
theorem OnlyMain.round {tid : Tid} (only : OnlyMain m tid) :
    ∃ created ended joined, m.step true (.create 7 1) = some created ∧
      created.step true (.terminate tid) = some ended ∧ ended.step true (.join 7) = some joined ∧
      created.alive.length ≤ 2 ∧ ended.alive.length ≤ 2 ∧ OnlyMain joined (tid + 1) := by
  have notMain : tid ≠ 0 := Nat.ne_of_gt only.later
  have created := create_tToP true m 7 1
  have known : (m.create true 7 1).tToP tid = some 7 := by rw [created, only.next, Function.update_self]
  have noMain : Function.update (fun _ => (none : Option PthreadT)) 0 (some 5) tid = none :=
    Function.update_of_ne notMain _ _
  have tToP : ((m.create true 7 1).zombify tid).tToP = Function.update (fun _ => none) 0 (some 5) := by
    rw [zombify_tToP, created, only.next, only.tToP, Function.update_idem]
    funext t
    by_cases same : t = tid
    · rw [same, Function.update_self, noMain]
    · rw [Function.update_of_ne same]
  have pToT : ((m.create true 7 1).zombify tid).pToT = Function.update (fun _ => none) 5 (some 0) := by
    funext th
    rw [zombify_pToT, known, create_pToT, only.pToT]
    by_cases same : th = 7
    · simp [same]
    · simp [same, Ne.symm same]
  have zombie : ((m.create true 7 1).zombify tid).zombies 7 = true := by
    unfold zombify
    simp [known]
  refine ⟨_, _, _, if_pos (by rw [only.pToT]; rfl), if_neg (by simp [known]), if_pos zombie, ?_, ?_, ?_⟩
  · refine alive_length_le [0, tid] fun t live => ?_
    rw [created, only.next, only.tToP] at live
    by_contra other
    obtain ⟨notFirst, notNew⟩ := not_or.mp (by simpa using other)
    simp [notFirst, notNew] at live
  · refine (alive_length_le [0] fun t live => ?_).trans (by decide)
    rw [tToP] at live
    by_contra other
    exact live (Function.update_of_ne (by simpa using other) _ _)
  · exact ⟨by simp [reap, only.next], Nat.succ_pos tid, tToP, pToT⟩

/-- Threads can go on being created with two of them alive at a time. -/
theorem churn_exec {tid : Tid} (only : OnlyMain m tid) (rounds : Nat) :
    ∃ final, exec (step true) m (churn tid rounds) = some final ∧
      Throughout (step true) (fun m => m.alive.length ≤ 2) m (churn tid rounds) := by
  induction rounds generalizing m tid with
  | zero => exact ⟨m, rfl, only.alive_le⟩
  | succ rounds ih =>
    obtain ⟨created, ended, joined, first, second, third, few, fewer, last⟩ := only.round
    obtain ⟨final, run, throughout⟩ := ih last
    refine ⟨final, ?_, only.alive_le, fun next moved => ?_⟩
    · simp [churn, exec, first, second, third, run]
    · cases first.symm.trans moved
      refine ⟨few, fun next moved => ?_⟩
      cases second.symm.trans moved
      refine ⟨fewer, fun next moved => ?_⟩
      cases third.symm.trans moved
      exact throughout

/-- **With two threads alive at a time, the 5000th thread that is created gets a tid out of range.** -/
theorem churn_is_out_of_range : ∃ final,
    exec (step true) (init true 5) (churn 1 5000) = some final ∧
    Throughout (step true) (fun m => m.alive.length ≤ 2) (init true 5) (churn 1 5000) ∧
    ¬ Along (step true) GivesInRange (init true 5) (churn 1 5000) := by
  have only : OnlyMain (init true 5) 1 :=
    ⟨rfl, Nat.one_pos, create_tToP true {} 5 0, create_pToT true {} 5 0⟩
  obtain ⟨final, run, few⟩ := churn_exec only 5000
  refine ⟨final, run, few, fun inRange => ?_⟩
  have count := (givesInRange_iff (by decide) run).mp inRange
  rw [churn_creates] at count
  exact absurd count (by decide)

end TidMap

end MinSmt
