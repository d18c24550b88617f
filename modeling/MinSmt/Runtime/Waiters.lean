/-
**The threads that wait on one channel, in the order in which they came.**

All threads wait in one queue. What a barrier, a soft barrier or a condition variable sees of it is the
list of the threads that wait on its own channel.

* `Core.waiters c on` — that list.
* `waiters_turned`, `waiters_enqueue`, `waiters_signal_all` — what the operations of a turn do to it.
* `Recorder.took_waiters` — a turn that does not signal on the channel leaves the threads that wait
  forever there, and adds its own thread when that waits there.
-/

import MinSmt.Runtime.Frames
import MinSmt.Runtime.Recorder

namespace MinSmt

open MinSmt.Library

/-- **The threads that wait on a channel**, the first one first. -/
def Core.waiters (c : Core) (on : Chan) : List Tid :=
  c.waitq.filter fun t => (c.waits t).chan == some on

/-- The thread that gives the turn up like this, when it waits on the channel. -/
def Finish.joins (on : Chan) (tid : Tid) : Finish → List Tid
  | .wait chan _ _ => if chan = some on then [tid] else []
  | _ => []

theorem joins_cases (on : Chan) (tid : Tid) (finish : Finish) :
    finish.joins on tid = [] ∨ finish.joins on tid = [tid] := by
  cases finish with
  | wait chan timeout next =>
    by_cases isOn : chan = some on
    · exact Or.inr (if_pos isOn)
    · exact Or.inl (if_neg isOn)
  | _ => exact Or.inl rfl

section Waiters

variable {c c' : Core} {on : Chan} {chan : Option Chan} {t tid : Tid}

theorem mem_waiters : t ∈ c.waiters on ↔ t ∈ c.waitq ∧ (c.waits t).chan = some on := by
  unfold Core.waiters
  rw [List.mem_filter, beq_iff_eq]

/-- The operations of a turn that take no thread out keep the list. -/
theorem waiters_turned (nodup : c.waitq.Nodup) (ops : Core.Turned chan c c')
    (stays : ∀ t ∈ c.waiters on, t ∈ c'.waitq) : c'.waiters on = c.waiters on := by
  refine filter_eq_of_sublist ops.kept nodup (fun t inside => ?_) fun t inside waits => ?_
  · rw [ops.same t (Or.inl inside)]
  · exact stays t (mem_waiters.mpr ⟨inside, eq_of_beq waits⟩)

/-- A thread that waits forever is taken out only by a signal. -/
theorem stays_of_patient (ops : Core.Turned chan c c') (deaf : chan ≠ some on)
    (waits : t ∈ c.waiters on) (patient : (c.waits t).timeout = forever) : t ∈ c'.waitq := by
  obtain ⟨inside, isOn⟩ := mem_waiters.mp waits
  by_contra gone
  rcases ops.gone t inside gone with ⟨-, -, isChan⟩ | ⟨-, ticks, -, late⟩
  · exact deaf (isChan.symm.trans isOn)
  · rw [patient] at late
    unfold forever unsignedMod at late
    omega

theorem waiters_enqueue (free : tid ∉ c.waitq) (timeout : Nat) :
    (c.enqueue tid chan timeout).waiters on =
      c.waiters on ++ if chan = some on then [tid] else [] := by
  have others : ∀ t ∈ c.waitq, (((c.enqueue tid chan timeout).waits t).chan == some on) =
      ((c.waits t).chan == some on) := by
    intro t inside
    have other : t ≠ tid := fun same => free (same ▸ inside)
    rw [Recorder.enqueue_waits_of_ne other]
  show (c.waitq ++ [tid]).filter _ = _
  rw [List.filter_append, List.filter_congr others]
  refine congrArg (c.waiters on ++ ·) ?_
  rw [List.filter_cons, Recorder.enqueue_waits_self]
  simp only [beq_iff_eq, List.filter_nil]

theorem waiters_signal_all (nodup : c.waitq.Nodup) (on : Chan) :
    (c.signal on true).1.waiters on = [] := by
  refine List.filter_eq_nil_iff.mpr fun t stays => ?_
  have kept := (scan_kept_iff nodup).mp stays
  have slot : (c.signal on true).1.waits t = c.waits t := scan_frame c.waitq kept.2
  rw [slot]
  intro waits
  refine kept.2 ?_
  rw [scan_woken_all nodup]
  exact List.mem_filter.mpr ⟨kept.1, waits⟩

/-- The operations of a turn add nobody. -/
theorem waiters_subset (ops : Core.Turned chan c c') (waits : t ∈ c'.waiters on) :
    t ∈ c.waiters on := by
  obtain ⟨inside, isOn⟩ := mem_waiters.mp waits
  rw [ops.same t (Or.inl inside)] at isOn
  exact mem_waiters.mpr ⟨ops.kept.subset inside, isOn⟩

theorem waiters_nil (ops : Core.Turned chan c c') (nobody : c.waiters on = []) :
    c'.waiters on = [] := by
  refine List.eq_nil_iff_forall_not_mem.mpr fun t waits => ?_
  have before := waiters_subset ops waits
  rw [nobody] at before
  cases before

/-- The threads that stay keep their order. -/
theorem waiters_sublist (ops : Core.Turned chan c c') : (c'.waiters on).Sublist (c.waiters on) := by
  unfold Core.waiters
  have same : c'.waitq.filter (fun t => (c'.waits t).chan == some on) =
      c'.waitq.filter fun t => (c.waits t).chan == some on :=
    List.filter_congr fun t inside => by rw [ops.same t (Or.inl inside)]
  rw [same]
  exact ops.kept.filter _

/-- A thread that is still in the wait queue still waits on the channel. -/
theorem waits_of_stays (ops : Core.Turned chan c c') (waits : t ∈ c.waiters on) (stays : t ∈ c'.waitq) :
    t ∈ c'.waiters on := by
  refine mem_waiters.mpr ⟨stays, ?_⟩
  rw [ops.same t (Or.inl stays)]
  exact (mem_waiters.mp waits).2

/-- **A signal takes the first thread and no other.** -/
theorem signal_one {first : Tid} {rest : List Tid} (nodup : c.waitq.Nodup)
    (isFirst : c.waiters on = first :: rest) :
    first ∉ (c.signal on false).1.waitq ∧
      ((c.signal on false).1.waits first).wakeReason = .signal ∧
      ∀ t ∈ rest, t ∈ (c.signal on false).1.waitq := by
  have found : c.waitq.find? (fun t => (c.waits t).chan == some on) = some first := by
    rw [← List.head?_filter]
    exact congrArg List.head? isFirst
  have woken : (c.signal on false).2 = [first] := by
    refine (scan_woken_one c.waitq).trans ?_
    rw [found]
    rfl
  have isWoken : first ∈ (c.signal on false).2 := woken ▸ List.mem_singleton_self first
  refine ⟨fun stays => ((scan_kept_iff nodup).mp stays).2 isWoken, ?_, fun t member => ?_⟩
  · have slot : (c.signal on false).1.waits first =
        { (c.waits first).reset with wakeReason := .signal } := scan_wake nodup isWoken
    rw [slot]
  · have waits : t ∈ c.waiters on := isFirst ▸ List.mem_cons_of_mem _ member
    refine (scan_kept_iff nodup).mpr ⟨(mem_waiters.mp waits).1, fun taken => ?_⟩
    have same : t = first := List.mem_singleton.mp (woken ▸ taken)
    have distinct : (c.waiters on).Nodup := nodup.filter _
    rw [isFirst] at distinct
    exact (List.nodup_cons.mp distinct).1 (same ▸ member)

/-- **A broadcast takes all threads, in their order.** -/
theorem signal_all (nodup : c.waitq.Nodup) (on : Chan) :
    (c.signal on true).2 = c.waiters on ∧ ∀ t ∈ c.waiters on,
      t ∉ (c.signal on true).1.waitq ∧
        ((c.signal on true).1.waits t).wakeReason = .signal := by
  have woken : (c.signal on true).2 = c.waiters on := scan_woken_all nodup
  refine ⟨woken, fun t waits => ?_⟩
  have isWoken : t ∈ (c.signal on true).2 := woken ▸ waits
  refine ⟨fun stays => ((scan_kept_iff nodup).mp stays).2 isWoken, ?_⟩
  have slot : (c.signal on true).1.waits t =
      { (c.waits t).reset with wakeReason := .signal } := scan_wake nodup isWoken
  rw [slot]

/-- What is left of the list when a signal has taken the first thread. -/
theorem waiters_signal_one (nodup : c.waitq.Nodup) (on : Chan) :
    (c.signal on false).1.waiters on = (c.waiters on).tail := by
  have ops := (Core.Turned.refl (some on) nodup).signal rfl false
  cases queue : c.waiters on with
  | nil => exact waiters_nil ops queue
  | cons first rest =>
    obtain ⟨gone, -, others⟩ := signal_one nodup queue
    have distinct : (c.waiters on).Nodup := nodup.filter _
    have without : first ∉ (c.signal on false).1.waiters on := fun waits => gone (mem_waiters.mp waits).1
    have shorter : ((c.signal on false).1.waiters on).Sublist (first :: rest) :=
      queue ▸ waiters_sublist ops
    rw [queue] at distinct
    refine ((List.sublist_cons_iff.mp shorter).resolve_right ?_).eq_of_length_le ?_
    · rintro ⟨later, isCons, -⟩
      exact without (isCons ▸ List.mem_cons_self)
    · refine List.Subperm.length_le (List.subperm_of_subset (List.nodup_cons.mp distinct).2 ?_)
      intro t member
      exact waits_of_stays ops (queue ▸ List.mem_cons_of_mem _ member) (others t member)

/-- A pass that finds nobody there keeps the list. -/
theorem waiters_pass (nodup : c.waitq.Nodup) {hit : WaitT → Tid → Bool} {wake : WaitT → WaitT}
    {all : Bool} (misses : ∀ t ∈ c.waiters on, hit (c.waits t) t = false) :
    (c.pass hit wake all).1.waiters on = c.waiters on := by
  have frame : ∀ t ∈ (c.pass hit wake all).1.waitq,
      (c.pass hit wake all).1.waits t = c.waits t := fun t stays =>
    scan_frame c.waitq ((scan_kept_iff nodup).mp stays).2
  refine filter_eq_of_sublist (scan_kept_sublist _ _) nodup (fun t stays => ?_)
    fun t inside waits => ?_
  · rw [frame t stays]
  · refine (scan_kept_iff nodup).mpr ⟨inside, fun woken => ?_⟩
    have hits := scan_woken_hit nodup woken
    rw [misses t (mem_waiters.mpr ⟨inside, eq_of_beq waits⟩)] at hits
    cases hits

end Waiters

namespace Recorder

variable {o : Options} {r r' : Recorder} {tid : Tid} {stage : Stage} {on : Chan}

theorem GivenUp.waiters {c core : Core} {finish : Finish} {spot : Spot}
    (givenUp : GivenUp tid c finish core spot) (free : tid ∉ c.waitq) :
    core.waiters on = c.waiters on ++ finish.joins on tid := by
  cases givenUp with
  | wait chan timeout next => exact waiters_enqueue free timeout
  | _ => exact (List.append_nil _).symm

/-- A turn adds nobody but its own thread. -/
theorem took_waiters_nil (took : Took o r tid stage r') (nobody : r.core.waiters on = [])
    (elsewhere : (r.turnOf o tid stage).2.joins on tid = []) : r'.core.waiters on = [] := by
  obtain ⟨c, ops, -, givenUp⟩ := took.turned
  rw [givenUp.waiters fun inside => took.ready.1 (ops.kept.subset inside), elsewhere,
    waiters_nil ops nobody]
  rfl

theorem GivenUp.nthread {c core : Core} {finish : Finish} {spot : Spot}
    (givenUp : GivenUp tid c finish core spot) : core.tm.nthread = c.tm.nthread := by
  cases givenUp with
  | ended => exact TidMap.zombify_nthread c.tm tid
  | _ => rfl

/-- No number of a thread is given back. -/
theorem took_nthread (took : Took o r tid stage r') : r.core.tm.nthread ≤ r'.core.tm.nthread := by
  obtain ⟨c, ops, -, givenUp⟩ := took.turned
  rw [givenUp.nthread]
  exact ops.grown

/-- **A turn that does not signal on the channel** leaves the threads that wait forever there. -/
theorem took_waiters (nodup : r.core.waitq.Nodup) (took : Took o r tid stage r')
    (deaf : r.signalled tid stage ≠ some on)
    (patient : ∀ t ∈ r.core.waiters on, (r.core.waits t).timeout = forever) :
    r'.core.waiters on = r.core.waiters on ++ (r.turnOf o tid stage).2.joins on tid := by
  obtain ⟨c, ops, -, givenUp⟩ := took.turned
  rw [givenUp.waiters fun inside => took.ready.1 (ops.kept.subset inside)]
  refine congrArg (· ++ _) (waiters_turned nodup ops fun t waits => ?_)
  exact stays_of_patient ops deaf waits (patient t waits)

/-- **Where a turn leaves its thread**, when the wrapper has not returned. -/
theorem took_inside (took : Took o r tid stage r') {next : Stage}
    (there : r'.spot tid = .inside next) :
    (next.waits = true ∧ next.chan = stage.awaits ∧
      ∃ timeout, (r.turnOf o tid stage).2 = .wait stage.awaits timeout next) ∨
    ∃ barrier, stage = .called (.barrierWait barrier) ∧ next = .barrierLast barrier := by
  obtain ⟨c, -, -, givenUp⟩ := took.turned
  have fits : (r.turnOf o tid stage).2.Fits stage :=
    @turn_fits _ (Core.serializer o.wakeamapPlus) o tid (r.env tid) stage
  have waitsOn : (r.turnOf o tid stage).2.WaitsOn stage.awaits :=
    @turn_waitsOn _ (Core.serializer o.wakeamapPlus) o tid (r.env tid) stage
  rw [there] at givenUp
  generalize r'.core = core at givenUp
  generalize (r.turnOf o tid stage).2 = finish at givenUp fits waitsOn
  cases givenUp with
  | wait chan timeout next =>
    have isChan : chan = stage.awaits := waitsOn
    exact Or.inl ⟨fits.1, fits.2.1.symm.trans isChan, timeout, by rw [isChan]⟩
  | bounce next => exact Or.inr fits

/-! ### Turns that work on another object -/

section Elsewhere

variable (isObject : on.isObject = true) (other : stage.object ≠ some on)

include isObject other

/-- Such a turn does not signal on the object. -/
theorem deaf_of_object : r.signalled tid stage ≠ some on := by
  intro signals
  unfold signalled at signals
  split at signals
  · obtain ⟨th, -, isThread⟩ := Option.map_eq_some_iff.mp signals
    cases isThread
    cases isObject
  · exact other (object_of_signals isObject signals)

/-- Its thread does not wait on the object. -/
theorem joins_of_object : (r.turnOf o tid stage).2.joins on tid = [] := by
  have waitsOn : (r.turnOf o tid stage).2.WaitsOn stage.awaits :=
    @turn_waitsOn _ (Core.serializer o.wakeamapPlus) o tid (r.env tid) stage
  cases finish : (r.turnOf o tid stage).2 with
  | wait chan timeout next =>
    rw [finish] at waitsOn
    exact if_neg fun isOn => other (object_of_awaits isObject (waitsOn.symm.trans isOn))
  | _ => rfl

/-- Its wrapper does not go on behind a wait on the object. -/
theorem chan_of_object (took : Took o r tid stage r') {next : Stage}
    (there : r'.spot tid = .inside next) : next.chan ≠ some on := by
  intro isOn
  rcases took_inside took there with ⟨-, isChan, -⟩ | ⟨barrier, -, isLast⟩
  · exact other (object_of_awaits isObject (isChan.symm.trans isOn))
  · rw [isLast] at isOn
    cases isOn

end Elsewhere

/-! ### Steps without a turn -/

/-- What a step without a turn does to the threads that wait elsewhere than the idle thread: it may count a
turn. -/
theorem idle_turned {label : Tid × Move} (nodup : r.core.waitq.Nodup)
    (stepped : r.step o label = some r') (noTurn : r.stageOf label.1 label.2 = none)
    (other : on ≠ .idleCond) :
    ∃ c, Core.Turned none r.core c ∧ r'.core.waiters on = c.waiters on ∧
      r'.core.tm.nthread = r.core.tm.nthread ∧
      ∀ t ∈ r.core.waiters on, (t ∈ r'.core.waitq ↔ t ∈ c.waitq) ∧ r'.core.waits t = c.waits t := by
  obtain ⟨tid, move⟩ := label
  rcases step_cases nodup stepped with ⟨stage, isStage, -⟩ | ⟨-, -, rfl⟩ | ⟨-, ready, -, rfl⟩ |
    ⟨-, isIdle, rfl⟩
  · rw [noTurn] at isStage
    cases isStage
  · exact ⟨r.core, .refl none nodup, rfl, rfl, fun t _ => ⟨Iff.rfl, rfl⟩⟩
  · have ops := (Core.Turned.refl none nodup).incTurnCount
    refine ⟨_, ops, ?_, rfl, fun t waits => ?_⟩
    · refine (waiters_enqueue (fun inside => ready.1 (ops.kept.subset inside)) forever).trans ?_
      rw [if_neg fun same => other (Option.some.inj same).symm, List.append_nil]
    · have different : t ≠ tid := fun same => ready.1 (same ▸ (mem_waiters.mp waits).1)
      exact ⟨mem_enqueue.trans (or_iff_left different), enqueue_waits_of_ne different⟩
  · -- the pass finds the idle thread only, which waits elsewhere
    have missed : ∀ t ∈ r.core.waiters on, (t == idleThreadTid) = false := by
      intro t waits
      refine beq_eq_false_iff_ne.mpr fun same => other ?_
      rw [same] at waits
      exact Option.some.inj ((mem_waiters.mp waits).2.symm.trans isIdle)
    refine ⟨r.core, .refl none nodup, waiters_pass nodup missed, rfl, fun t waits => ?_⟩
    have notWoken : t ∉ (scan (fun _ tid => tid == idleThreadTid) (fun w => w.reset) false
        r.core.waits r.core.waitq).woken := by
      intro woken
      have hits := scan_woken_hit nodup woken
      rw [missed t waits] at hits
      cases hits
    exact ⟨(scan_kept_iff nodup).trans (and_iff_left notWoken), scan_frame _ notWoken⟩

/-- The steps of the idle thread leave the other channels alone. -/
theorem idle_waiters {label : Tid × Move} (sound : Sound r.core r.spot)
    (stepped : r.step o label = some r') (noTurn : r.stageOf label.1 label.2 = none)
    (other : on ≠ .idleCond)
    (patient : ∀ t ∈ r.core.waiters on, (r.core.waits t).timeout = forever) :
    r'.core.waiters on = r.core.waiters on := by
  obtain ⟨c, ops, queue, -, -⟩ := idle_turned sound.nodup stepped noTurn other
  refine queue.trans (waiters_turned sound.nodup ops fun t waits => ?_)
  exact stays_of_patient ops nofun waits (patient t waits)

/-- A step without a turn counts no new thread, and another channel stays empty. -/
theorem idle_nobody {label : Tid × Move} (nodup : r.core.waitq.Nodup)
    (stepped : r.step o label = some r') (noTurn : r.stageOf label.1 label.2 = none) :
    r'.core.tm.nthread = r.core.tm.nthread ∧
      (on ≠ .idleCond → r.core.waiters on = [] → r'.core.waiters on = []) := by
  have elsewhere : (Chan.mutex 0) ≠ .idleCond := nofun
  obtain ⟨-, -, -, threads, -⟩ := idle_turned nodup stepped noTurn elsewhere
  refine ⟨threads, fun other nobody => ?_⟩
  obtain ⟨c, ops, queue, -, -⟩ := idle_turned nodup stepped noTurn other
  exact queue.trans (waiters_nil ops nobody)

/-- A step without a turn moves no thread that is inside a wrapper, and writes no object. -/
theorem idle_spots {label : Tid × Move} (nodup : r.core.waitq.Nodup)
    (stepped : r.step o label = some r') (noTurn : r.stageOf label.1 label.2 = none) :
    r'.shared = r.shared ∧ ∀ t stage, r'.spot t = .inside stage ↔ r.spot t = .inside stage := by
  obtain ⟨tid, move⟩ := label
  rcases step_cases nodup stepped with ⟨stage, isStage, -⟩ | ⟨-, returning, rfl⟩ | ⟨-, -, -, rfl⟩ |
    ⟨-, -, rfl⟩
  · rw [noTurn] at isStage
    cases isStage
  · refine ⟨rfl, fun t stage => ?_⟩
    show Function.update r.spot tid .outside t = _ ↔ _
    by_cases same : t = tid
    · rw [same, Function.update_self, returning]
      exact ⟨nofun, nofun⟩
    · rw [Function.update_of_ne same]
  · exact ⟨rfl, fun _ _ => Iff.rfl⟩
  · exact ⟨rfl, fun _ _ => Iff.rfl⟩

/-- The turn of a step that takes one. -/
theorem took_of_step {move : Move} (nodup : r.core.waitq.Nodup)
    (stepped : r.step o (tid, move) = some r') (isStage : r.stageOf tid move = some stage) :
    Took o r tid stage r' := by
  rcases step_cases nodup stepped with ⟨stage', isStage', took⟩ | ⟨rfl, -⟩ | ⟨rfl, -⟩ | ⟨rfl, -⟩
  · rw [isStage] at isStage'
    exact Option.some.inj isStage' ▸ took
  · cases isStage
  · cases isStage
  · cases isStage

/-- A wrapper that goes on is where it goes on. -/
theorem inside_of_stageOf {move : Move} (isStage : r.stageOf tid move = some stage)
    (goesOn : ∀ call, stage ≠ .called call) : r.spot tid = .inside stage := by
  cases move with
  | call call =>
    simp only [stageOf] at isStage
    split at isStage
    · exact absurd (Option.some.inj isStage).symm (goesOn call)
    · cases isStage
  | resume =>
    simp only [stageOf] at isStage
    split at isStage
    · rename_i stage' here
      rw [here, Option.some.inj isStage]
    · cases isStage
  | _ => cases isStage

/-- A wrapper that has begun goes on behind its first turn. -/
def Entered (r : Recorder) : Prop := ∀ t call, r.spot t ≠ .inside (.called call)

theorem entered_step {label : Tid × Move} (nodup : r.core.waitq.Nodup) (entered : Entered r)
    (stepped : r.step o label = some r') : Entered r' := by
  intro t call there
  cases isStage : r.stageOf label.1 label.2 with
  | none =>
    exact entered t call (((idle_spots nodup stepped isStage).2 t _).mp there)
  | some stage =>
    obtain ⟨tid, move⟩ := label
    have took := took_of_step nodup stepped isStage
    by_cases same : t = tid
    · subst same
      rcases took_inside took there with ⟨waits, -⟩ | ⟨barrier, -, isLast⟩
      · cases waits
      · cases isLast
    · rw [took.spots t same] at there
      exact entered t call there

/-- A wrapper begins outside the wrappers. -/
theorem outside_of_called {move : Move} {call : Call} (entered : Entered r)
    (isCall : r.stageOf tid move = some (.called call)) : r.spot tid = .outside := by
  cases move with
  | call call' =>
    simp only [stageOf] at isCall
    split at isCall
    · assumption
    · cases isCall
  | resume =>
    simp only [stageOf] at isCall
    split at isCall
    · rename_i stage here
      rw [Option.some.inj isCall] at here
      exact absurd here (entered tid call)
    · cases isCall
  | _ => cases isCall

/-- **What holds of every process.** -/
theorem reached_run {mainTh : PthreadT} {shared : Shared} {labels : List (Tid × Move)}
    (ran : exec (step o) (init o mainTh shared) labels = some r) :
    Sound r.core r.spot ∧ Entered r := by
  refine exec_invariant (fun r => Sound r.core r.spot ∧ Entered r) ?_ ⟨sound_run (exec_nil _), ?_⟩
    (along_of_labels (fun label _ => trivial) (init o mainTh shared)) ran
  · intro s label next inv _ stepped
    exact ⟨sound_step inv.1 stepped, entered_step inv.1.nodup inv.2 stepped⟩
  · exact fun t call => nofun

end Recorder

end MinSmt
