/-
**The log is a total order** (`log_sync`).

A record carries a turn number. `SCHED_TIMER_FAKE_END` and `idle_sleep` log what `incTurnCount` returned;
`SCHED_TIMER_END_COMMON` reads the number again with `getTurnCount`, after the timeouts and the wake-ups of
that turn. Other calls (`wait`, `block`, `printStat`, `idle_cond_wait`) count a turn and log nothing.

`SyncLog` is a process with its log. Every macro is cut between its `incTurnCount` and its `logSync`, and
the other threads may move in between. Three fields are added that the code does not have: the number
of turns counted (which does not wrap), the threads that got the turn, in order, and, in each record, the
position in that list of the turn in which the record was written.

* `SyncLog.Sound` — the invariant: what has been counted and not yet logged is the latest turn, and the
  thread that counted it still has the turn.
* **`log_is_total_order`** — no number occurs twice, and sorting the records by their numbers gives the
  order in which the threads held the turn.
-/

import MinSmt.Library.Run
import MinSmt.Scheduler.Exclusion

namespace MinSmt

open MinSmt.Library

/-- Where the number of a record comes from. -/
inductive Source
  /-- `SCHED_TIMER_END_COMMON`: `getTurnCount()`, at the time of the record. -/
  | timerEnd
  /-- `SCHED_TIMER_FAKE_END`: what `incTurnCount()` returned. -/
  | fakeEnd
  /-- `idle_sleep`: what `incTurnCount()` returned. -/
  | idleSleep
  deriving DecidableEq, Repr

/-- A record of `logSync`. -/
structure Record where
  tid : Tid
  turn : Nat
  /-- The turn in which it was written, among the turns taken. -/
  period : Nat
  deriving DecidableEq, Repr

/-- A process that logs its synchronization operations. -/
structure SyncLog where
  sys : Sys
  /-- The local variable `nturn` of a thread that has counted and not logged yet. -/
  nturn : Tid → Option (Source × Nat) := fun _ => none
  /-- The records of all threads, as they are written. -/
  log : List Record := []
  turns : Nat := 0
  holders : List Tid := []

/-- What a thread can do. -/
inductive SyncMove
  /-- A step of the scheduler that belongs to no record. -/
  | act (action : Action)
  /-- `nturn = incTurnCount()`, of one of the macros or of `idle_sleep`. -/
  | count (source : Source) (order : List Tid)
  /-- `Logger::the->logSync(..)`. -/
  | logSync
  /-- `SCHED_TIMER_THREAD_END`: count, log and leave. -/
  | threadEnd (order : List Tid)
  /-- `__fork`, going on in the child with a new log. -/
  | forkChild (mainTh : PthreadT)
  deriving DecidableEq, Repr

/-- The child of a fork, up to `SCHED_TIMER_END`: its only thread has the turn. -/
def Sys.forkChild (o : Options) (s : Sys) (mainTh : PthreadT) : Sys where
  sched := s.sched.childForkReturn o mainTh
  pc := Function.update (fun _ => .dead) mainThreadTid (.turn false)
  idleDone := s.idleDone

namespace SyncLog

variable (o : Options)

/-- The threads that got the turn, after a step of `tid`. -/
def took (s : SyncLog) (tid : Tid) (sys : Sys) : List Tid :=
  if (sys.pc tid).inTurn = true ∧ (s.sys.pc tid).inTurn = false then s.holders ++ [tid] else s.holders

/-- The record that a thread writes now. -/
def record (s : SyncLog) (tid : Tid) (turn : Nat) : Record := ⟨tid, turn, s.holders.length - 1⟩

/-- **One step.** A thread that has counted for a record writes the record next. -/
def step (s : SyncLog) (label : Tid × SyncMove) : Option SyncLog :=
  let tid := label.1
  match label.2, s.nturn tid with
  | .act action, none =>
    match action with
    | .endThread _ => none
    | action => (s.sys.step o (tid, action)).map fun sys =>
        { s with sys := sys, turns := s.turns + action.counts.toNat, holders := s.took tid sys }
  | .count source order, none =>
    if source = .idleSleep → tid = idleThreadTid then
      (s.sys.step o (tid, .incTurnCount order)).map fun sys =>
        { s with
          sys := sys
          nturn := Function.update s.nturn tid (some (source, s.sys.sched.turnCount))
          turns := s.turns + 1 }
    else none
  | .logSync, some (source, nturn) =>
    if s.sys.outcome = some .exited ∨ s.sys.outcome = some .crashed then none
    else
      let turn := if source = .timerEnd then s.sys.sched.getTurnCount else nturn
      some { s with
        nturn := Function.update s.nturn tid none
        log := s.log ++ [s.record tid turn] }
  | .threadEnd order, none =>
    (s.sys.step o (tid, .endThread order)).map fun sys =>
      { s with
        sys := sys
        log := s.log ++ [s.record tid (s.sys.sched.incTurnCount o order).getTurnCount]
        turns := s.turns + 1 }
  | .forkChild mainTh, none =>
    if s.sys.pc tid = .turn false ∧ s.sys.outcome ≠ some .exited ∧ s.sys.outcome ≠ some .crashed then
      some { sys := s.sys.forkChild o mainTh, turns := s.turns, holders := [mainThreadTid] }
    else none
  | _, _ => none

/-- The process after the scheduler has been made. -/
def init (mainTh : PthreadT) : SyncLog := { sys := Sys.init o mainTh }

/-! ### The invariant -/

/-- **What has been counted and not yet logged is the latest turn**, and the log is sorted. -/
structure Sound (o : Options) (s : SyncLog) : Prop where
  exclusive : ∃ holder, Exclusive o s.sys holder
  counted : s.sys.outcome ≠ some .crashed → s.sys.sched.turnCount = s.turns
  pending : ∀ t source n, s.nturn t = some (source, n) →
    (s.sys.pc t).inTurn = true ∧ n + 1 = s.turns ∧ ∀ r ∈ s.log, r.turn < n
  below : ∀ r ∈ s.log, r.turn < s.turns
  sorted : s.log.Pairwise fun r r' => r.turn < r'.turn ∧ r.period ≤ r'.period
  held : ∀ r ∈ s.log, s.holders[r.period]? = some r.tid
  last : ∀ t, (s.sys.pc t).inTurn = true → s.holders.getLast? = some t

variable {o} {s s' : SyncLog} {tid : Tid}

/-- A step of a process that is there. -/
theorem alive_of_step {sys sys' : Sys} {label : Tid × Action} (stepped : sys.step o label = some sys') :
    sys.outcome ≠ some .crashed := by
  intro crashed
  unfold Sys.step at stepped
  rw [crashed] at stepped
  cases stepped

namespace Sound

/-- While a thread counts a turn, nobody else has one to log. -/
theorem alone (sound : Sound o s) (idle : s.nturn tid = none) (here : (s.sys.pc tid).inTurn = true)
    (t : Tid) : s.nturn t = none := by
  by_contra some
  obtain ⟨⟨source, n⟩, isPending⟩ := Option.ne_none_iff_exists'.mp some
  obtain ⟨holder, exclusive⟩ := sound.exclusive
  have same := exclusive.unique (sound.pending t source n isPending).1 here
  rw [same, idle] at isPending
  cases isPending

/-- **A step of the scheduler.** -/
theorem acted (mode : o.Serializing) (sound : Sound o s) (idle : s.nturn tid = none) {action : Action}
    {sys : Sys} (stepped : s.sys.step o (tid, action) = some sys)
    (few : s.turns + action.counts.toNat < unsignedMod) :
    Sound o { s with sys := sys, turns := s.turns + action.counts.toNat, holders := s.took tid sys } := by
  obtain ⟨holder, exclusive⟩ := sound.exclusive
  have moves := Moves.of_step stepped
  obtain ⟨holder', exclusive'⟩ := exclusive.step mode moves
  refine ⟨⟨holder', exclusive'⟩, fun alive => ?_, fun t source n isPending => ?_, fun r inside => ?_,
    sound.sorted, fun r inside => ?_, fun t there => ?_⟩
  · have before := sound.counted (alive_of_step stepped)
    have after := moves.turnCount_eq.resolve_right alive
    show sys.sched.turnCount = s.turns + action.counts.toNat
    rw [after]
    unfold Sched.counted
    cases counts : action.counts with
    | false => simpa using before
    | true =>
      rw [counts] at few
      show (s.sys.sched.turnCount + 1) % unsignedMod = s.turns + 1
      rw [before]
      exact Nat.mod_eq_of_lt few
  · obtain ⟨there, latest, above⟩ := sound.pending t source n isPending
    have other : t ≠ tid := fun same => by
      rw [same, idle] at isPending
      cases isPending
    have plain : action.counts = false := by
      by_contra counts
      exact other (exclusive.unique there (moves.inTurn_of_counts (by simpa using counts)))
    refine ⟨?_, ?_, above⟩
    · show (sys.pc t).inTurn = true
      rw [moves.others exclusive other]
      exact there
    · show n + 1 = s.turns + action.counts.toNat
      rw [plain]
      exact latest
  · exact Nat.lt_of_lt_of_le (sound.below r inside) (Nat.le_add_right _ _)
  · have was := sound.held r inside
    show (s.took tid sys)[r.period]? = some r.tid
    unfold took
    split
    · rw [List.getElem?_append_left (List.getElem?_eq_some_iff.mp was).1]
      exact was
    · exact was
  · show (s.took tid sys).getLast? = some t
    unfold took
    by_cases own : t = tid
    · subst own
      cases before : (s.sys.pc t).inTurn with
      | false => rw [if_pos ⟨there, rfl⟩, List.getLast?_concat]
      | true => rw [if_neg (by simp), sound.last t before]
    · rw [if_neg fun got => own (exclusive'.unique there got.1)]
      exact sound.last t ((moves.others exclusive own).symm.trans there)

/-- **A record of the latest turn is added.** -/
theorem add (sound : Sound o s) (others : ∀ t, t ≠ tid → s.nturn t = none)
    (here : s.holders.getLast? = some tid) {turn : Nat} (latest : turn + 1 = s.turns)
    (above : ∀ r ∈ s.log, r.turn < turn) :
    Sound o { s with
      nturn := Function.update s.nturn tid none
      log := s.log ++ [s.record tid turn] } := by
  have place : s.holders[s.holders.length - 1]? = some tid := by
    rwa [List.getLast?_eq_getElem?] at here
  refine ⟨sound.exclusive, sound.counted, fun t source n isPending => ?_, fun r inside => ?_, ?_,
    fun r inside => ?_, sound.last⟩
  · have nothing : Function.update s.nturn tid none t = none := by
      by_cases own : t = tid
      · rw [own, Function.update_self]
      · rw [Function.update_of_ne own, others t own]
    exact absurd (nothing.symm.trans isPending) nofun
  · rcases List.mem_append.mp inside with old | new
    · exact sound.below r old
    · rw [List.mem_singleton.mp new]
      show turn < s.turns
      omega
  · refine List.pairwise_append.mpr ⟨sound.sorted, List.pairwise_singleton _ _, fun r old r' new => ?_⟩
    rw [List.mem_singleton.mp new]
    have within := (List.getElem?_eq_some_iff.mp (sound.held r old)).1
    exact ⟨above r old, by show r.period ≤ s.holders.length - 1; omega⟩
  · rcases List.mem_append.mp inside with old | new
    · exact sound.held r old
    · rw [List.mem_singleton.mp new]
      exact place

/-- The number of the turn that has just been counted. -/
theorem getTurnCount_eq {c : Core} {turns : Nat} (count : c.turnCount = turns + 1)
    (few : turns + 1 < unsignedMod) : c.getTurnCount = turns := by
  unfold Core.getTurnCount
  rw [count]
  unfold unsignedMod at few ⊢
  omega

/-- The thread has the turn when it counts, so it is the last that got it. -/
theorem took_eq (here : (s.sys.pc tid).inTurn = true) (sys : Sys) : s.took tid sys = s.holders := by
  unfold took
  rw [here]
  exact if_neg (by simp)

/-- The child of a fork has one thread, which has the turn, and an empty log. -/
theorem forked (sound : Sound o s) (here : s.sys.pc tid = .turn false)
    (alive : s.sys.outcome ≠ some .crashed) (mainTh : PthreadT) :
    Sound o { sys := s.sys.forkChild o mainTh, turns := s.turns, holders := [mainThreadTid] } := by
  obtain ⟨holder, exclusive⟩ := sound.exclusive
  have inTurn : (s.sys.pc tid).inTurn = true := by rw [here]; rfl
  obtain rfl := exclusive.holder_eq inTurn
  have gone : ∀ t, t ≠ mainThreadTid → (s.sys.forkChild o mainTh).pc t = .dead := by
    intro t other
    show Function.update (fun _ => Pc.dead) mainThreadTid (.turn false) t = .dead
    exact Function.update_of_ne other _ _
  have only : ∀ t, ((s.sys.forkChild o mainTh).pc t).inTurn = true → t = mainThreadTid := by
    intro t there
    by_contra other
    rw [gone t other] at there
    cases there
  have owed : ∀ t, (s.sys.forkChild o mainTh).owed o t = 0 := by
    intro t
    have before := exclusive.one t
    have nothing : s.sys.owed o t = 0 := by
      by_cases own : t = tid
      · subst own
        rw [inTurn, if_pos rfl] at before
        simp only [Bool.toNat_true] at before
        omega
      · rw [if_neg fun same => own (Option.some.inj same).symm] at before
        omega
    unfold Sys.owed at nothing ⊢
    split
    · rfl
    · rename_i nonneg
      rw [if_neg nonneg] at nothing
      exact Nat.le_zero.mp (nothing ▸ posts_le rfl nofun)
  refine ⟨⟨some mainThreadTid, fun t => ?_, fun tond t there => ?_, fun t new => ?_⟩,
    fun _ => sound.counted alive, nofun, nofun, List.Pairwise.nil, nofun, fun t there => ?_⟩
  · rw [owed t]
    by_cases isMain : t = mainThreadTid
    · rw [if_pos (congrArg some isMain.symm)]
      exact Bool.toNat_le _
    · have outside : ((s.sys.forkChild o mainTh).pc t).inTurn = false := by
        by_contra there
        exact isMain (only t (by simpa using there))
      rw [outside]
      exact Nat.zero_le _
  · exact exclusive.locked tond tid inTurn
  · have later : 1 ≤ t := new
    exact gone t (Nat.ne_of_gt later)
  · rw [only t there]
    rfl

/-- **A thread counts a turn that it will log.** -/
theorem counts (mode : o.Serializing) (sound : Sound o s) (idle : s.nturn tid = none) {order : List Tid}
    {sys : Sys} (moved : s.sys.step o (tid, .incTurnCount order) = some sys) (source : Source)
    (few : s.turns + 1 < unsignedMod) :
    Sound o { s with
      sys := sys
      nturn := Function.update s.nturn tid (some (source, s.sys.sched.turnCount))
      turns := s.turns + 1 } := by
  have moves := Moves.of_step moved
  have here := moves.inTurn_of_counts rfl
  have before := sound.counted (alive_of_step moved)
  have after := sound.acted mode idle moved few
  rw [took_eq here] at after
  refine ⟨after.exclusive, after.counted, fun t source' n isPending => ?_, after.below, after.sorted,
    after.held, after.last⟩
  have written : Function.update s.nturn tid (some (source, s.sys.sched.turnCount)) t =
    some (source', n) := isPending
  by_cases own : t = tid
  · subst own
    rw [Function.update_self] at written
    obtain rfl : s.sys.sched.turnCount = n := congrArg Prod.snd (Option.some.inj written)
    refine ⟨moves.stays_inTurn, by rw [before], fun r inside => ?_⟩
    rw [before]
    exact sound.below r inside
  · rw [Function.update_of_ne own, sound.alone idle here t] at written
    cases written

/-- **It logs the turn**, under the number that `incTurnCount` returned: `getTurnCount` still says the
same. -/
theorem logs (sound : Sound o s) {source : Source} {n : Nat} (isPending : s.nturn tid = some (source, n))
    (alive : s.sys.outcome ≠ some .crashed) (few : s.turns < unsignedMod) :
    Sound o { s with
      nturn := Function.update s.nturn tid none
      log := s.log ++
        [s.record tid (if source = .timerEnd then s.sys.sched.getTurnCount else n)] } := by
  obtain ⟨here, latest, above⟩ := sound.pending tid source n isPending
  have number : (if source = .timerEnd then s.sys.sched.getTurnCount else n) = n := by
    split
    · exact getTurnCount_eq ((sound.counted alive).trans latest.symm) (latest ▸ few)
    · rfl
  rw [number]
  refine sound.add (fun t other => ?_) (sound.last tid here) latest above
  by_contra some
  obtain ⟨⟨source', n'⟩, isPending'⟩ := Option.ne_none_iff_exists'.mp some
  obtain ⟨holder, exclusive⟩ := sound.exclusive
  exact other (exclusive.unique (sound.pending t source' n' isPending').1 here)

/-- **A thread ends**: it counts its last turn, logs it and leaves. -/
theorem ends (mode : o.Serializing) (sound : Sound o s) (idle : s.nturn tid = none) {order : List Tid}
    {sys : Sys} (moved : s.sys.step o (tid, .endThread order) = some sys)
    (few : s.turns + 1 < unsignedMod) :
    Sound o { s with
      sys := sys
      log := s.log ++ [s.record tid (s.sys.sched.incTurnCount o order).getTurnCount]
      turns := s.turns + 1 } := by
  have here := (Moves.of_step moved).inTurn_of_counts rfl
  have after := sound.acted mode idle moved few
  rw [took_eq here] at after
  have counts : (s.sys.sched.incTurnCount o order).turnCount = s.turns + 1 := by
    rw [(Sched.Same.frame.incTurnCount order).turnCount]
    show (s.sys.sched.turnCount + 1) % unsignedMod = s.turns + 1
    rw [sound.counted (alive_of_step moved)]
    exact Nat.mod_eq_of_lt few
  have added := after.add (fun t _ => sound.alone idle here t) (sound.last tid here) rfl
    (fun r inside => sound.below r inside)
  have same : Function.update s.nturn tid none = s.nturn := by
    rw [← idle]
    exact Function.update_eq_self _ _
  rw [same] at added
  rw [getTurnCount_eq counts few]
  exact added

/-- **Every step keeps it**, while the turns have not wrapped. -/
theorem step (mode : o.Serializing) (sound : Sound o s) {label : Tid × SyncMove}
    (stepped : SyncLog.step o s label = some s') (few : s'.turns < unsignedMod) : Sound o s' := by
  obtain ⟨tid, move⟩ := label
  unfold SyncLog.step at stepped
  dsimp only at stepped
  split at stepped
  · rename_i action idle
    split at stepped
    · cases stepped
    · obtain ⟨sys, moved, rfl⟩ := Option.map_eq_some_iff.mp stepped
      exact sound.acted mode idle moved few
  · rename_i source order idle
    split at stepped
    · obtain ⟨sys, moved, rfl⟩ := Option.map_eq_some_iff.mp stepped
      exact sound.counts mode idle moved source few
    · cases stepped
  · rename_i source n isPending
    split at stepped
    · cases stepped
    · rename_i running
      cases stepped
      exact sound.logs isPending (fun crashed => running (Or.inr crashed)) few
  · rename_i order idle
    obtain ⟨sys, moved, rfl⟩ := Option.map_eq_some_iff.mp stepped
    exact sound.ends mode idle moved few
  · rename_i mainTh idle
    split at stepped
    · rename_i enabled
      cases stepped
      exact sound.forked enabled.1 enabled.2.2 mainTh
    · cases stepped
  · cases stepped

theorem initial (mode : o.Serializing) (mainTh : PthreadT) : Sound o (SyncLog.init o mainTh) := by
  have exclusive := Exclusive.initial mode mainTh
  refine ⟨⟨_, exclusive⟩, fun _ => rfl, nofun, nofun, List.Pairwise.nil, nofun, fun t there => ?_⟩
  have away : (SyncLog.init o mainTh).sys.pc t = .away ∨ (SyncLog.init o mainTh).sys.pc t = .dead := by
    show Function.update (fun _ => Pc.dead) mainThreadTid .away t = .away ∨
      Function.update (fun _ => Pc.dead) mainThreadTid .away t = .dead
    by_cases isMain : t = mainThreadTid
    · rw [isMain, Function.update_self]
      exact Or.inl rfl
    · rw [Function.update_of_ne isMain]
      exact Or.inr rfl
  rcases away with isAway | isDead
  · rw [isAway] at there
    cases there
  · rw [isDead] at there
    cases there

end Sound

/-- Turns are counted, never taken back. -/
theorem turns_le {label : Tid × SyncMove} (stepped : SyncLog.step o s label = some s') :
    s.turns ≤ s'.turns := by
  unfold SyncLog.step at stepped
  dsimp only at stepped
  split at stepped
  · split at stepped
    · cases stepped
    · obtain ⟨sys, -, rfl⟩ := Option.map_eq_some_iff.mp stepped
      exact Nat.le_add_right _ _
  · split at stepped
    · obtain ⟨sys, -, rfl⟩ := Option.map_eq_some_iff.mp stepped
      exact Nat.le_add_right _ _
    · cases stepped
  · split at stepped
    · cases stepped
    · cases stepped
      exact Nat.le_refl _
  · obtain ⟨sys, -, rfl⟩ := Option.map_eq_some_iff.mp stepped
    exact Nat.le_add_right _ _
  · split at stepped
    · cases stepped
      exact Nat.le_refl _
    · cases stepped
  · cases stepped

/-- **It holds after every run** of fewer than `2 ^ 32` turns. -/
theorem sound_run (mode : o.Serializing) {mainTh : PthreadT} {labels : List (Tid × SyncMove)}
    (ran : exec (SyncLog.step o) (SyncLog.init o mainTh) labels = some s) (few : s.turns < unsignedMod) :
    Sound o s := by
  refine exec_invariant (fun s => s.turns < unsignedMod → Sound o s) (fun s label s' sound _ stepped few => ?_)
    (fun _ => Sound.initial mode mainTh) (along_of_labels (fun _ _ => trivial) _) ran few
  exact (sound (Nat.lt_of_le_of_lt (turns_le stepped) few)).step mode stepped few

/-- **The log is a total order.** -/
theorem log_is_total_order (o : Options) (mode : o.Serializing) (mainTh : PthreadT)
    (labels : List (Tid × SyncMove)) (s : SyncLog)
    (ran : exec (SyncLog.step o) (SyncLog.init o mainTh) labels = some s)
    (few : s.turns < unsignedMod) :
    (s.log.map Record.turn).Nodup ∧
      (∀ t, ((s.log.filter fun r => r.tid = t).map Record.turn).Pairwise (· < ·)) ∧
      ∀ merged : List Record, merged.Perm s.log → (merged.map Record.turn).Pairwise (· ≤ ·) →
        (merged.map Record.period).Pairwise (· ≤ ·) ∧
          ∀ r ∈ merged, s.holders[r.period]? = some r.tid := by
  have sound := sound_run mode ran few
  have increasing : (s.log.map Record.turn).Pairwise (· < ·) :=
    List.pairwise_map.mpr (sound.sorted.imp And.left)
  refine ⟨increasing.imp Nat.ne_of_lt, fun t => ?_, fun merged perm isSorted => ?_⟩
  · exact increasing.sublist (List.filter_sublist.map _)
  · have apart : ∀ r r', r ∈ merged → r' ∈ s.log → r.turn ≤ r'.turn → r'.turn ≤ r.turn → r = r' := by
      intro r r' inMerged inLog le ge
      have injective := List.inj_on_of_nodup_map (increasing.imp Nat.ne_of_lt)
      exact injective (perm.mem_iff.mp inMerged) inLog (Nat.le_antisymm le ge)
    have same : merged = s.log := by
      refine List.Perm.eq_of_pairwise apart (List.pairwise_map.mp isSorted) ?_ perm
      exact (List.pairwise_map.mp increasing).imp Nat.le_of_lt
    subst same
    exact ⟨List.pairwise_map.mpr (sound.sorted.imp And.right), sound.held⟩

/-- The main thread logs two operations, the second of them twice. -/
def twoOperations : List (Tid × SyncMove) :=
  [(0, .act .getTurn), (0, .act .gotTurn), (0, .count .timerEnd []), (0, .logSync),
    (0, .act (.putTurn .default)), (0, .act (.checkWakeup [])), (0, .act .nextRunnable), (0, .act .post),
    (0, .act .getTurn), (0, .act .gotTurn), (0, .count .fakeEnd []), (0, .logSync),
    (0, .act (.putTurn .default)), (0, .act (.checkWakeup [])), (0, .act .nextRunnable), (0, .act .post),
    (0, .act .getTurn), (0, .act .gotTurn), (0, .act (.incTurnCount [])), (0, .count .timerEnd []),
    (0, .logSync)]

theorem log_is_total_order_twoOperations :
    ∃ s, exec (SyncLog.step {}) (SyncLog.init {} 100) twoOperations = some s ∧
      s.log = [⟨0, 0, 0⟩, ⟨0, 1, 1⟩, ⟨0, 3, 2⟩] ∧ (s.log.map Record.turn).Nodup := by
  have found : (exec (SyncLog.step {}) (SyncLog.init {} 100) twoOperations).any (fun s =>
      decide (s.turns < unsignedMod ∧ s.log = [⟨0, 0, 0⟩, ⟨0, 1, 1⟩, ⟨0, 3, 2⟩])) = true := by
    decide +kernel
  obtain ⟨s, ran, here⟩ := exec_of_any found
  obtain ⟨few, isLog⟩ := of_decide_eq_true here
  exact ⟨s, ran, isLog, (log_is_total_order {} (by decide) 100 twoOperations s ran few).1⟩

end SyncLog

end MinSmt
