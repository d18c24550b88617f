/-
**The turns of a program are determined**, as far as nobody reads the shared maps without the turn.

Two runs of one program, with handles of their own and any order of what the threads do without the
turn, take the same turns as far as both of them go. What can break it is `check_cv_wait_cnt`:
`SCHED_TIMER_END` calls it after `putTurn`, and it asks `cond_map`, `blocked_cv_count_map` and
`sem_map`, which whoever has the turn by then may be writing.

* `Execution.Good` — a thread that executes what follows `putTurn` has been posted again, or has no
  pointer that could be reset; and the handles are in order.
* `Follows` — a process, the lazy process with the tids for handles, and what lies between them.
* **`turns_agree`** — two runs of good steps show the same turns.
* `two_orders_two_schedules` — a program that shows others when a thread is late.
-/

import MinSmt.Runtime.HandleReuse

namespace MinSmt

open MinSmt.Library

/-! ### The start -/

theorem TidMap.init_rename {h : PthreadT → PthreadT} (inj : Function.Injective h) (wakeamapPlus : Bool)
    (th : PthreadT) : (TidMap.init wakeamapPlus th).rename h = TidMap.init wakeamapPlus (h th) := by
  have empty : ({} : TidMap).rename h = {} := by
    have none : ∀ {γ : Type} (d : γ), Function.extend h (fun _ => d) (fun _ => d) = fun _ => d := by
      intro γ d
      funext q
      by_cases found : ∃ th, h th = q
      · obtain ⟨th, rfl⟩ := found
        rw [inj.extend_apply]
      · rw [Function.extend_apply' _ _ _ found]
    unfold rename
    dsimp only
    rw [none, none]
    rfl
  rw [TidMap.init, ← create_rename inj, empty]
  rfl

namespace Execution

variable {o : Options} {h : PthreadT → PthreadT}

theorem init_named (inj : Function.Injective h) : (init o id).named h = init o h := by
  have scheds : (Sched.init o mainThreadTid).rename h = Sched.init o (h mainThreadTid) := by
    unfold Sched.init
    dsimp only
    rw [← TidMap.init_rename inj]
    exact (congrArg (Sched.setStatus · mainThreadTid .runningReg) (Sched.post_rename _ mainThreadTid)).symm
  have threads : (fun t => ((init o id).thread t).named h) = (init o h).thread := by
    funext t
    unfold init
    by_cases isMain : t = mainThreadTid
    · rw [isMain]
      rfl
    · dsimp only
      rw [Function.update_of_ne isMain]
      rfl
  unfold named
  rw [threads, show ((init o id).sched.rename h) = _ from scheds]
  rfl

/-- At the start the process knows the handle of the main thread only. -/
theorem names_init {t : Tid} (named : (init o id).Names t) : t = mainThreadTid := by
  by_contra other
  refine not_names_of_named_eq ?_ named
  rw [init_named even_injective, init_named (evenBut_injective t)]
  unfold init
  rw [even_eq_evenBut (Ne.symm other)]

end Execution

/-! ### The runs -/

/-- **The step is good.** -/
structure Execution.Good (o : Options) (program : Program) (handle : Tid → PthreadT) (p : Execution)
    (label : Tid × ThreadMove) : Prop where
  settled : p.Settled o label
  handed : p.Handed program handle label

/-- The process is, under other handles, ahead of the lazy process `c`. -/
structure Follows (o : Options) (program : Program) (handle : Tid → PthreadT) (p c : Execution) : Prop where
  between : ∃ q, Renamed handle q p ∧ Behind o program id c q
  single : ∃ holder, c.Single o holder

namespace Follows

open Execution

variable {o : Options} {program : Program} {handle : Tid → PthreadT} {p p' c : Execution}
  {label : Tid × ThreadMove}

theorem start (rr : o.RoundRobin) : Follows o program handle (init o handle) (init o id) := by
  have one : (init o id).sched.tm.nthread = 1 := rfl
  have renamed : Renamed handle (init o id) (init o handle) := by
    refine ⟨fun t named => ?_, fun t => handle mainThreadTid + t, fun t u same => Nat.add_left_cancel same, ?_, ?_⟩
    · rw [names_init named, one]
      exact Owns.newest
    · rw [one]
      intro t owns
      rw [Nat.lt_one_iff.mp owns.1]
      rfl
    · rw [init_named fun t u same => Nat.add_left_cancel same]
      rfl
  exact ⟨⟨init o id, renamed, Behind.refl _⟩, _, Single.initial rr id⟩

theorem step (rr : o.RoundRobin) (follows : Follows o program handle p c) (good : p.Good o program handle label)
    (stepped : p.step o program handle label = some p') :
    (p.turnOf o handle label = none ∧ Follows o program handle p' c) ∨
      ∃ t c', c.lazyStep o program id t = some c' ∧
        p.turnOf o handle label = (c.lazyTurn o program id t).map (Turn.rename handle) ∧
        Follows o program handle p' c' := by
  obtain ⟨⟨q, renamed, behind⟩, holder, single⟩ := follows
  obtain ⟨q', moved, turns, renamed'⟩ := renamed.step good.handed stepped
  have settled : q.Settled o label := by
    obtain ⟨h, -, -, rfl⟩ := renamed.named
    exact good.settled
  rcases behind.follows rr single settled moved with ⟨silent, behind'⟩ | ⟨c', lazily, same, behind'⟩
  · refine Or.inl ⟨?_, ⟨q', renamed', behind'⟩, holder, single⟩
    rw [turns, silent]
    rfl
  · refine Or.inr ⟨label.1, c', lazily, ?_, ⟨q', renamed', behind'⟩, (single.lazyStep rr lazily).2⟩
    rw [turns, same]

end Follows

open Execution in
/-- A run of good steps shows what a run of the lazy process does, under its own handles. -/
theorem lazy_run {o : Options} (rr : o.RoundRobin) {program : Program} {handle : Tid → PthreadT}
    {labels : List (Tid × ThreadMove)} {p : Execution}
    (good : Along (step o program handle) (Good o program handle) (init o handle) labels)
    (run : exec (step o program handle) (init o handle) labels = some p) :
    ∃ lazily c, exec (lazyStep o program id) (init o id) lazily = some c ∧
      (init o handle).turns o program handle labels =
        (trace (lazyStep o program id) (lazyTurn o program id) (init o id) lazily).map (Turn.rename handle) := by
  obtain ⟨lazily, c, runs, shows, -⟩ := trace_simulates (Follows o program handle)
    (fun p c label p' follows good stepped => follows.step rr good stepped) (Follows.start rr) good run
  exact ⟨lazily, c, runs, shows⟩

open Execution in
/-- Two runs of the lazy process agree, since one thread at a time can move. -/
theorem lazy_agree {o : Options} (rr : o.RoundRobin) {program : Program} {lazily₁ lazily₂ : List Tid}
    {c₁ c₂ : Execution} (run₁ : exec (lazyStep o program id) (init o id) lazily₁ = some c₁)
    (run₂ : exec (lazyStep o program id) (init o id) lazily₂ = some c₂) :
    ∃ turns : List Turn,
      trace (lazyStep o program id) (lazyTurn o program id) (init o id) lazily₁ <+: turns ∧
        trace (lazyStep o program id) (lazyTurn o program id) (init o id) lazily₂ <+: turns := by
  have preserved : ∀ (c : Execution) t c', (∃ holder, c.Single o holder) → c.lazyStep o program id t = some c' →
      ∃ holder, c'.Single o holder := by
    rintro c t c' ⟨holder, single⟩ stepped
    exact (single.lazyStep rr stepped).2
  have unique : ∀ (c : Execution) t u c' c'', (∃ holder, c.Single o holder) →
      c.lazyStep o program id t = some c' → c.lazyStep o program id u = some c'' → t = u := by
    rintro c t u c' c'' ⟨holder, single⟩ first second
    exact Option.some.inj ((single.lazyStep rr first).1.symm.trans (single.lazyStep rr second).1)
  have agree : trace (lazyStep o program id) (lazyTurn o program id) (init o id) lazily₁ <+:
        trace (lazyStep o program id) (lazyTurn o program id) (init o id) lazily₂ ∨
      trace (lazyStep o program id) (lazyTurn o program id) (init o id) lazily₂ <+:
        trace (lazyStep o program id) (lazyTurn o program id) (init o id) lazily₁ :=
    trace_agree _ preserved unique ⟨_, Single.initial rr id⟩ run₁ run₂
  rcases agree with shorter | longer
  · exact ⟨_, shorter, List.prefix_rfl⟩
  · exact ⟨_, List.prefix_rfl, longer⟩

namespace Execution

variable {o : Options} {program : Program} {handle : Tid → PthreadT}

/-- A step that asks for no handle needs nothing of the handles. -/
theorem Good.of_asks_none {p : Execution} {label : Tid × ThreadMove} (none : p.asks program label = none)
    (settled : p.Settled o label) : p.Good o program handle label := by
  refine ⟨settled, fun _ t asked => ?_, fun _ t asked => ?_⟩
  all_goals
    rw [none] at asked
    cases asked

end Execution

/-- Every thread begins, and then yields for ever. -/
def yieldProgram : Program := fun _ results => ([], if results = [] then .threadBegin else .schedYield)

/-- A turn, from the end of `getTurn` to the post of the next thread. -/
def goLabels (t : Tid) : List (Tid × ThreadMove) := List.replicate 5 (t, .go)

/-- A call that takes one turn. -/
def callLabels (t : Tid) : List (Tid × ThreadMove) := (t, .arrive) :: goLabels t ++ [(t, .finish)]

/-- Bit `0x02` of the policy. -/
def raceOptions : Options := { enforceTurnType := 1, schedulingPolicy := 2, launchIdleThread := 0 }

/-- Two threads wait on a condition variable; the main thread signals it once and yields, and another
thread signals it. -/
def raceProgram : Program := fun code results =>
  let calls : List Call :=
    match code.1 with
    | 0 => [.threadBegin, .create 0 2 0, .create 0 2 0, .create 0 3 0, .dummySync, .condSignal 5, .schedYield]
    | 2 => [.threadBegin, .mutexLock 4, .condWait 5 4 0, .mutexUnlock 4, .threadEnd]
    | _ => [.threadBegin, .dummySync, .condSignal 5]
  ([], (calls[results.length]?).getD .dummySync)

/-- Up to the turn in which the main thread yields. -/
def raceStart : List (Tid × ThreadMove) :=
  [0, 0, 1, 0, 1, 2, 0].flatMap callLabels ++ (1, .arrive) :: goLabels 1 ++ [2, 3, 0].flatMap callLabels ++
    (2, .arrive) :: goLabels 2 ++ [3, 0].flatMap callLabels ++ (0, .arrive) :: goLabels 0

/-- The main thread asks `cond_map` before the other thread signals, and then has two turns in a row. -/
def raceEarly : List (Tid × ThreadMove) :=
  raceStart ++ [(0, .finish)] ++ callLabels 3 ++ goLabels 1 ++ [(1, .finish)] ++ callLabels 0 ++ callLabels 0

/-- The main thread asks `cond_map` after that, and has one. -/
def raceLate : List (Tid × ThreadMove) :=
  raceStart ++ callLabels 3 ++ goLabels 1 ++ [(1, .finish), (0, .finish)] ++ callLabels 0 ++ goLabels 2

end MinSmt
