/-
**Soft barriers** (`lineupStart`, `lineupEnd`).

A soft barrier counts the threads that are between `lineupStart` and `lineupEnd`. While its phase is
`ARRIVING` a thread waits, until the barrier is full or the thread has waited too long; either of them
makes the phase `LEAVING`, in which nobody waits. A thread that waited looks at the phase when it has
the turn again, and takes an `ARRIVING` for its own timeout.

* `lineupStep` — a step of the process, with the threads between `lineupStart` and `lineupEnd`.
* `LineupMatched` — the calls of every thread are matched, and the soft barrier is not destroyed.
* `LineupInv` — what each phase says about these threads.
* `LineupStep` — what one step can do: how the phase changes, and who opens the barrier.
* **`lineup_phases`** — both hold in every run.
-/

import MinSmt.Runtime.Waiters

namespace MinSmt

open MinSmt.Library

/-- `b.nactive++`. -/
def Lineup.enter (b : Lineup) : Lineup := { b with nactive := (b.nactive + 1) % unsignedMod }

/-- The wrapper initialises or destroys the soft barrier. -/
def Stage.resetsLineup (opaqueType : Nat) : Stage → Bool
  | .called (.lineupInit l _ _) => l == opaqueType
  | .called (.lineupDestroy l) => l == opaqueType
  | _ => false

/-! ### The turns of the wrappers -/

section Turns

variable {σ : Type} {S : Serializer σ} {e : Env σ} {opaqueType : Nat} {b : Lineup}
  (isLineup : e.shared.refcntBars opaqueType = some b)

include isLineup

/-- The arrival that makes the barrier full. -/
theorem lineupStart_full (full : (b.nactive + 1) % unsignedMod = b.count)
    (arriving : b.arriving = true) :
    lineupStart S e opaqueType =
      ((setLineup e opaqueType (some { b.enter with arriving := false })).signal S
        (.lineup opaqueType) true, .done false {}) := by
  simp only [lineupStart, isLineup]
  rw [if_pos full, if_pos arriving]
  rfl

/-- An arrival in the phase `LEAVING`. -/
theorem lineupStart_leaving (leaving : b.arriving = false) :
    lineupStart S e opaqueType = (setLineup e opaqueType (some b.enter), .done false {}) := by
  have notArriving : ¬ b.arriving = true := by
    rw [leaving]
    exact Bool.false_ne_true
  simp only [lineupStart, isLineup]
  rw [if_neg notArriving, if_neg notArriving]
  split <;> rfl

/-- An arrival that has to wait. -/
theorem lineupStart_wait (notFull : (b.nactive + 1) % unsignedMod ≠ b.count)
    (arriving : b.arriving = true) :
    lineupStart S e opaqueType = (setLineup e opaqueType (some b.enter),
      .wait (some (.lineup opaqueType))
        (((S.core e.sched).getTurnCount + b.timeout) % unsignedMod) (.lineupWoken opaqueType)) := by
  simp only [lineupStart, isLineup]
  rw [if_neg notFull, if_pos arriving]
  rfl

/-- A thread that waited too long. -/
theorem lineupWoken_opens (notFull : b.nactive < b.count) (arriving : b.arriving = true) :
    lineupWoken S e opaqueType =
      ((setLineup e opaqueType (some { b with arriving := false })).signal S
        (.lineup opaqueType) true, .done false {}) := by
  simp only [lineupWoken, isLineup]
  rw [if_pos ⟨notFull, arriving⟩]

/-- A thread that waited until someone opened the barrier. -/
theorem lineupWoken_leaving (leaving : b.arriving = false) :
    lineupWoken S e opaqueType = (e, .done false {}) := by
  have notArriving : ¬ (b.nactive < b.count ∧ b.arriving = true) := by
    rw [leaving]
    exact fun both => Bool.false_ne_true both.2
  simp only [lineupWoken, isLineup]
  rw [if_neg notArriving]

/-- `lineupEnd` of one of the active threads. -/
theorem lineupEnd_turn (active : 0 < b.nactive) (small : b.nactive < unsignedMod) :
    lineupEnd e opaqueType = (setLineup e opaqueType (some { b with
      nactive := b.nactive - 1
      arriving := b.arriving || decide (b.nactive - 1 = 0) }), .done false {}) := by
  have fewer : (b.nactive + (unsignedMod - 1)) % unsignedMod = b.nactive - 1 := by
    unfold unsignedMod at small ⊢
    omega
  simp only [lineupEnd, isLineup, fewer]

end Turns

namespace Recorder

/-! ### The threads at a soft barrier -/

/-- The threads between `lineupStart` and `lineupEnd` after a step. -/
def lineupMembers (opaqueType : Nat) (r : Recorder) (members : List Tid) (label : Tid × Move) :
    List Tid :=
  match r.stageOf label.1 label.2 with
  | some (.called (.lineupStart l)) => if l = opaqueType then label.1 :: members else members
  | some (.called (.lineupEnd l)) => if l = opaqueType then members.erase label.1 else members
  | _ => members

/-- One step of the process, with the threads between `lineupStart` and `lineupEnd`. -/
def lineupStep (o : Options) (opaqueType : Nat) (s : Recorder × List Tid) (label : Tid × Move) :
    Option (Recorder × List Tid) :=
  (s.1.step o label).map fun next => (next, s.1.lineupMembers opaqueType s.2 label)

/-- A thread starts only when it is not between start and end, it ends only when it is, no one
initialises or destroys the soft barrier, and there are no more threads than slots. -/
def LineupMatched (opaqueType : Nat) (s : Recorder × List Tid) (label : Tid × Move) : Prop :=
  s.1.core.tm.nthread ≤ maxThreadNum ∧
  ∀ stage ∈ s.1.stageOf label.1 label.2,
    (stage = .called (.lineupStart opaqueType) → label.1 ∉ s.2) ∧
    (stage = .called (.lineupEnd opaqueType) → label.1 ∈ s.2) ∧
    stage.resetsLineup opaqueType = false

instance (opaqueType : Nat) (s : Recorder × List Tid) (label : Tid × Move) :
    Decidable (LineupMatched opaqueType s label) := inferInstanceAs (Decidable (_ ∧ ∀ _ ∈ _, _))

/-- The thread is in the wait queue, or it waited too long. -/
def Lingers (c : Core) (t : Tid) : Prop :=
  t ∈ c.waitq ∨ (t ∉ c.waitq ∧ (c.waits t).wakeReason = .timedout)

/-- The thread waits at the soft barrier, or it waited too long and has not had the turn since. -/
def InLine (opaqueType : Nat) (r : Recorder) (t : Tid) : Prop :=
  r.spot t = .inside (.lineupWoken opaqueType) ∧ Lingers r.core t

/-- **What each phase says about the threads.** -/
structure LineupInv (opaqueType : Nat) (b : Lineup) (r : Recorder) (members : List Tid) : Prop where
  isLineup : r.shared.refcntBars opaqueType = some b
  positive : 0 < b.count
  nactive : b.nactive = members.length
  nodup : members.Nodup
  known : ∀ t ∈ members, t < r.core.tm.nthread
  woken : ∀ t, r.spot t = .inside (.lineupWoken opaqueType) → t ∈ members
  arriving : b.arriving = true → b.nactive < b.count ∧ ∀ t ∈ members, InLine opaqueType r t
  leaving : b.arriving = false → 0 < b.nactive ∧ r.core.waiters (.lineup opaqueType) = []

/-- **What one step can do to the phase.** It goes back to `ARRIVING` exactly when `nactive` goes back
to zero; and whoever makes it `LEAVING` is the arrival that makes the barrier full or a thread that
waited too long. -/
structure LineupStep (opaqueType : Nat) (b b' : Lineup) (r : Recorder) (tid : Tid)
    (stage : Option Stage) : Prop where
  count : b'.count = b.count
  closes : (b.arriving = false ∧ b'.arriving = true) ↔ (b.nactive ≠ 0 ∧ b'.nactive = 0)
  opens : b.arriving = true → b'.arriving = false →
    (stage = some (.called (.lineupStart opaqueType)) ∧ b'.nactive = b.count) ∨
    (stage = some (.lineupWoken opaqueType) ∧ b.nactive < b.count ∧ tid ∉ r.core.waitq ∧
      (r.core.waits tid).wakeReason = .timedout)

variable {o : Options} {opaqueType : Nat} {b : Lineup} {r r' : Recorder} {members : List Tid}
  {tid : Tid} {stage : Stage}

/-- A step that leaves the soft barrier as it is. -/
theorem LineupStep.same (b : Lineup) (r : Recorder) (tid : Tid) (stage : Option Stage) :
    LineupStep opaqueType b b r tid stage := by
  refine ⟨rfl, ⟨fun both => ?_, fun both => absurd both.2 both.1⟩, fun arriving leaving => ?_⟩
  · rw [both.1] at both
    cases both.2
  · rw [arriving] at leaving
    cases leaving

/-- A thread that waits at the soft barrier waits on its channel. -/
theorem chan_of_inLine (sound : Sound r.core r.spot) {t : Tid}
    (here : r.spot t = .inside (.lineupWoken opaqueType)) (inside : t ∈ r.core.waitq) :
    (r.core.waits t).chan = some (.lineup opaqueType) := by
  have parked := sound.parked t inside
  rw [here] at parked
  exact parked.2.1

/-- Without a signal on its channel, a thread leaves the wait queue only by a timeout. -/
theorem lingers_turned {c c' : Core} {chan : Option Chan} {on : Chan} {t : Tid}
    (ops : Core.Turned chan c c') (deaf : chan ≠ some on)
    (isOn : t ∈ c.waitq → (c.waits t).chan = some on) (lingers : Lingers c t) : Lingers c' t := by
  by_cases inside : t ∈ c'.waitq
  · exact Or.inl inside
  · refine Or.inr ⟨inside, ?_⟩
    rcases lingers with before | ⟨free, fired⟩
    · rcases ops.gone t before inside with ⟨-, -, isChan⟩ | ⟨fired, -⟩
      · exact absurd (isChan.symm.trans (isOn before)) deaf
      · exact fired
    · rw [ops.same t (Or.inr free)]
      exact fired

theorem lingers_enqueue {c : Core} {chan : Option Chan} {timeout : Nat} {t : Tid} (other : t ≠ tid)
    (lingers : Lingers c t) : Lingers (c.enqueue tid chan timeout) t := by
  unfold Lingers
  rw [mem_enqueue, enqueue_waits_of_ne other, or_iff_left other]
  exact lingers

/-- **A turn that does not signal on the soft barrier** leaves the other threads there. -/
theorem inLine_took (sound : Sound r.core r.spot) (took : Took o r tid stage r')
    (deaf : r.signalled tid stage ≠ some (.lineup opaqueType)) {t : Tid} (other : t ≠ tid)
    (inLine : InLine opaqueType r t) : InLine opaqueType r' t := by
  obtain ⟨here, place⟩ := inLine
  obtain ⟨c, ops, -, givenUp⟩ := took.turned
  obtain ⟨member, slot⟩ := givenUp.other other
  refine ⟨(took.spots t other).trans here, ?_⟩
  unfold Lingers
  rw [member, slot]
  exact lingers_turned ops deaf (chan_of_inLine sound here) place

/-- So does a step without a turn. -/
theorem inLine_idle {label : Tid × Move} (sound : Sound r.core r.spot)
    (stepped : r.step o label = some r') (noTurn : r.stageOf label.1 label.2 = none) {t : Tid}
    (inLine : InLine opaqueType r t) : InLine opaqueType r' t := by
  obtain ⟨here, place⟩ := inLine
  have there := ((idle_spots sound.nodup stepped noTurn).2 t _).mpr here
  refine ⟨there, ?_⟩
  obtain ⟨tid, move⟩ := label
  rcases step_cases sound.nodup stepped with ⟨stage, isStage, -⟩ | ⟨-, -, rfl⟩ | ⟨-, -, outside, rfl⟩ |
    ⟨-, isIdle, rfl⟩
  · rw [noTurn] at isStage
    cases isStage
  · exact place
  · have other : t ≠ tid := by
      rintro rfl
      rw [here] at outside
      cases outside
    have ops := (Core.Turned.refl none sound.nodup).incTurnCount
    exact lingers_enqueue other (lingers_turned ops nofun (chan_of_inLine sound here) place)
  · -- the pass finds the idle thread only, which waits elsewhere
    have missed : t ∉ (scan (fun _ tid => tid == idleThreadTid) (fun w => w.reset) false
        r.core.waits r.core.waitq).woken := by
      intro woken
      have same : t = idleThreadTid := eq_of_beq (scan_woken_hit sound.nodup woken)
      have inside := scan_woken_subset _ _ woken
      have isLineup := chan_of_inLine sound here inside
      rw [same, isIdle] at isLineup
      cases isLineup
    have slot : r.core.wakeIdle.1.waits t = r.core.waits t := scan_frame _ missed
    have member : t ∈ r.core.wakeIdle.1.waitq ↔ t ∈ r.core.waitq :=
      (scan_kept_iff sound.nodup).trans (and_iff_left missed)
    show t ∈ r.core.wakeIdle.1.waitq ∨ (t ∉ r.core.wakeIdle.1.waitq ∧
      (r.core.wakeIdle.1.waits t).wakeReason = .timedout)
    rw [member, slot]
    exact place

/-! ### The kinds of steps -/

/-- What happened in one step. -/
def LineupKept (opaqueType : Nat) (b : Lineup) (r : Recorder) (tid : Tid) (stage : Option Stage)
    (r' : Recorder) (members : List Tid) : Prop :=
  ∃ b', LineupInv opaqueType b' r' members ∧ LineupStep opaqueType b b' r tid stage

/-- **A step without a turn.** -/
theorem lineup_idle {label : Tid × Move} (inv : LineupInv opaqueType b r members)
    (sound : Sound r.core r.spot) (stepped : r.step o label = some r')
    (noTurn : r.stageOf label.1 label.2 = none) :
    LineupKept opaqueType b r label.1 none r' members := by
  obtain ⟨shared, spots⟩ := idle_spots sound.nodup stepped noTurn
  obtain ⟨nthread, nobody⟩ := idle_nobody sound.nodup stepped noTurn
  refine ⟨b, ⟨by rw [shared]; exact inv.isLineup, inv.positive, inv.nactive, inv.nodup,
    fun t member => ?_, fun t there => inv.woken t ((spots t _).mp there), fun isArriving => ?_,
    fun isLeaving => ?_⟩, .same b r label.1 none⟩
  · rw [nthread]
    exact inv.known t member
  · obtain ⟨below, inLine⟩ := inv.arriving isArriving
    exact ⟨below, fun t member => inLine_idle sound stepped noTurn (inLine t member)⟩
  · obtain ⟨active, empty⟩ := inv.leaving isLeaving
    exact ⟨active, nobody nofun empty⟩

/-- The thread with the turn is not in line, unless it comes back from there. -/
theorem not_inLine {move : Move} (entered : Entered r) (isStage : r.stageOf tid move = some stage)
    (elsewhere : stage ≠ .lineupWoken opaqueType) : ¬ InLine opaqueType r tid := by
  rintro ⟨here, -⟩
  cases stage with
  | called call =>
    rw [outside_of_called entered isStage] at here
    cases here
  | _ =>
    rw [inside_of_stageOf isStage fun call => nofun] at here
    exact elsewhere (Spot.inside.inj here)

/-- **A turn that has nothing to do with the soft barrier.** -/
theorem lineup_other {move : Move} (inv : LineupInv opaqueType b r members)
    (sound : Sound r.core r.spot) (entered : Entered r) (isStage : r.stageOf tid move = some stage)
    (took : Took o r tid stage r') (other : stage.object ≠ some (.lineup opaqueType)) :
    LineupKept opaqueType b r tid (some stage) r' members := by
  have elsewhere : stage ≠ .lineupWoken opaqueType := by
    rintro rfl
    exact other rfl
  refine ⟨b, ⟨?_, inv.positive, inv.nactive, inv.nodup, fun t member => ?_, fun t there => ?_,
    fun isArriving => ?_, fun isLeaving => ?_⟩, .same b r tid _⟩
  · rw [took.shared]
    exact (turn_refcntBars other).trans inv.isLineup
  · exact (inv.known t member).trans_le (took_nthread took)
  · by_cases same : t = tid
    · subst same
      exact absurd rfl (chan_of_object rfl other took there)
    · exact inv.woken t ((took.spots t same).symm.trans there)
  · obtain ⟨below, inLine⟩ := inv.arriving isArriving
    refine ⟨below, fun t member => ?_⟩
    have notSelf : t ≠ tid := by
      rintro rfl
      exact not_inLine entered isStage elsewhere (inLine t member)
    exact inLine_took sound took (deaf_of_object rfl other) notSelf (inLine t member)
  · obtain ⟨active, empty⟩ := inv.leaving isLeaving
    exact ⟨active, took_waiters_nil took empty (joins_of_object rfl other)⟩

/-- The active threads are no more than there are threads. -/
theorem members_le {nthread : Nat} (nodup : members.Nodup) (known : ∀ t ∈ members, t < nthread) :
    members.length ≤ nthread := by
  have within : members ⊆ List.range nthread := fun t member => List.mem_range.mpr (known t member)
  have count := (List.subperm_of_subset nodup within).length_le
  rwa [List.length_range] at count

/-- `lineupStart` counts the thread, without overflow. -/
theorem enter_nactive (inv : LineupInv opaqueType b r members) (sound : Sound r.core r.spot)
    (alive : r.core.Live tid) (fresh : tid ∉ members) (few : r.core.tm.nthread ≤ maxThreadNum) :
    (b.nactive + 1) % unsignedMod = members.length + 1 := by
  have known : ∀ t ∈ tid :: members, t < r.core.tm.nthread := by
    intro t member
    rcases List.mem_cons.mp member with rfl | before
    · exact sound.known t alive
    · exact inv.known t before
  have count := members_le (List.nodup_cons.mpr ⟨fresh, inv.nodup⟩) known
  rw [List.length_cons] at count
  rw [inv.nactive]
  unfold maxThreadNum at few
  unfold unsignedMod
  omega

/-- **`lineupStart`.** -/
theorem lineup_start (inv : LineupInv opaqueType b r members) (sound : Sound r.core r.spot)
    (took : Took o r tid (.called (.lineupStart opaqueType)) r')
    (fresh : tid ∉ members) (few : r.core.tm.nthread ≤ maxThreadNum) :
    LineupKept opaqueType b r tid (some (.called (.lineupStart opaqueType))) r'
      (tid :: members) := by
  have counted := enter_nactive inv sound took.ready.2 fresh few
  have nodup : (tid :: members).Nodup := List.nodup_cons.mpr ⟨fresh, inv.nodup⟩
  have known : ∀ t ∈ tid :: members, t < r'.core.tm.nthread := by
    intro t member
    refine lt_of_lt_of_le ?_ (took_nthread took)
    rcases List.mem_cons.mp member with rfl | before
    · exact sound.known t took.ready.2
    · exact inv.known t before
  have woken : ∀ t, r'.spot t = .inside (.lineupWoken opaqueType) → t ∈ tid :: members := by
    intro t there
    by_cases same : t = tid
    · exact same ▸ List.mem_cons_self
    · exact List.mem_cons_of_mem _ (inv.woken t ((took.spots t same).symm.trans there))
  have gave := took.gave
  cases phase : b.arriving with
  | false =>
    have turn : r.turnOf o tid (.called (.lineupStart opaqueType)) = _ :=
      @lineupStart_leaving _ (Core.serializer o.wakeamapPlus) (r.env tid) opaqueType b inv.isLineup
        phase
    rw [turn] at gave
    cases gave
    refine ⟨b.enter, ⟨Function.update_self _ _ _, inv.positive, counted, nodup, known, woken,
      fun isArriving => ?_, fun _ => ⟨?_, ?_⟩⟩, rfl, ⟨fun both => ?_, fun both => ?_⟩, fun isArriving => ?_⟩
    · have arriving : b.arriving = true := isArriving
      rw [phase] at arriving
      cases arriving
    · show 0 < (b.nactive + 1) % unsignedMod
      omega
    · exact waiters_nil (Core.Turned.refl none sound.nodup).incTurnCount (inv.leaving phase).2
    · have arriving : b.arriving = true := both.2
      rw [phase] at arriving
      cases arriving
    · have none : (b.nactive + 1) % unsignedMod = 0 := both.2
      omega
    · rw [phase] at isArriving
      cases isArriving
  | true =>
    obtain ⟨below, inLine⟩ := inv.arriving phase
    by_cases full : (b.nactive + 1) % unsignedMod = b.count
    · have turn : r.turnOf o tid (.called (.lineupStart opaqueType)) = _ :=
        @lineupStart_full _ (Core.serializer o.wakeamapPlus) (r.env tid) opaqueType b inv.isLineup
          full phase
      rw [turn] at gave
      cases gave
      refine ⟨{ b.enter with arriving := false }, ⟨Function.update_self _ _ _, inv.positive, counted,
        nodup, known, woken, nofun, fun _ => ⟨?_, ?_⟩⟩, rfl, ⟨fun both => (nomatch both.2), fun both => ?_⟩,
        fun _ _ => Or.inl ⟨rfl, full⟩⟩
      · show 0 < (b.nactive + 1) % unsignedMod
        omega
      · have signalled := (Core.Turned.refl (some (.lineup opaqueType)) sound.nodup).signal rfl true
        refine waiters_nil (Core.Turned.refl none signalled.nodup).incTurnCount ?_
        exact waiters_signal_all sound.nodup _
      · have none : (b.nactive + 1) % unsignedMod = 0 := both.2
        omega
    · have turn : r.turnOf o tid (.called (.lineupStart opaqueType)) = _ :=
        @lineupStart_wait _ (Core.serializer o.wakeamapPlus) (r.env tid) opaqueType b inv.isLineup
          full phase
      rw [turn] at gave
      cases gave
      refine ⟨b.enter, ⟨Function.update_self _ _ _, inv.positive, counted, nodup, known, woken,
        fun _ => ⟨?_, ?_⟩, fun isLeaving => ?_⟩, rfl, ⟨fun both => ?_, fun both => ?_⟩, fun _ isLeaving => ?_⟩
      · show (b.nactive + 1) % unsignedMod < b.count
        have nactive := inv.nactive
        omega
      · intro t member
        by_cases same : t = tid
        · subst same
          exact ⟨put_spot_self, Or.inl (mem_enqueue.mpr (Or.inr rfl))⟩
        · obtain ⟨here, place⟩ := inLine t (List.mem_of_ne_of_mem same member)
          refine ⟨(put_spot_of_ne t same).trans here, lingers_enqueue same ?_⟩
          exact lingers_turned (Core.Turned.refl none sound.nodup).incTurnCount nofun
            (chan_of_inLine sound here) place
      · have leaving : b.arriving = false := isLeaving
        rw [phase] at leaving
        cases leaving
      · rw [phase] at both
        cases both.1
      · have none : (b.nactive + 1) % unsignedMod = 0 := both.2
        omega
      · have leaving : b.arriving = false := isLeaving
        rw [phase] at leaving
        cases leaving

/-- **`lineupStart` after its wait.** -/
theorem lineup_woken (inv : LineupInv opaqueType b r members) (sound : Sound r.core r.spot)
    (here : r.spot tid = .inside (.lineupWoken opaqueType))
    (took : Took o r tid (.lineupWoken opaqueType) r') :
    LineupKept opaqueType b r tid (some (.lineupWoken opaqueType)) r' members := by
  have member := inv.woken tid here
  have known : ∀ t ∈ members, t < r'.core.tm.nthread := fun t inside =>
    (inv.known t inside).trans_le (took_nthread took)
  have gave := took.gave
  cases phase : b.arriving with
  | false =>
    have turn : r.turnOf o tid (.lineupWoken opaqueType) = _ :=
      @lineupWoken_leaving _ (Core.serializer o.wakeamapPlus) (r.env tid) opaqueType b inv.isLineup
        phase
    rw [turn] at gave
    cases gave
    refine ⟨b, ⟨inv.isLineup, inv.positive, inv.nactive, inv.nodup, known, fun t there => ?_,
      fun isArriving => ?_, fun _ => ⟨(inv.leaving phase).1, ?_⟩⟩, .same b r tid _⟩
    · by_cases same : t = tid
      · exact same ▸ member
      · exact inv.woken t ((took.spots t same).symm.trans there)
    · rw [phase] at isArriving
      cases isArriving
    · exact waiters_nil (Core.Turned.refl none sound.nodup).incTurnCount (inv.leaving phase).2
  | true =>
    obtain ⟨below, inLine⟩ := inv.arriving phase
    have fired := ((inLine tid member).2.resolve_left took.ready.1).2
    have turn : r.turnOf o tid (.lineupWoken opaqueType) = _ :=
      @lineupWoken_opens _ (Core.serializer o.wakeamapPlus) (r.env tid) opaqueType b inv.isLineup
        below phase
    rw [turn] at gave
    cases gave
    have active : 0 < b.nactive := by
      rw [inv.nactive]
      exact List.length_pos_of_mem member
    refine ⟨{ b with arriving := false }, ⟨Function.update_self _ _ _, inv.positive, inv.nactive,
      inv.nodup, known, fun t there => ?_, nofun, fun _ => ⟨active, ?_⟩⟩, rfl,
      ⟨fun both => (nomatch both.2), fun both => absurd both.2 both.1⟩,
      fun _ _ => Or.inr ⟨rfl, below, took.ready.1, fired⟩⟩
    · by_cases same : t = tid
      · exact same ▸ member
      · exact inv.woken t ((took.spots t same).symm.trans there)
    · have signalled := (Core.Turned.refl (some (.lineup opaqueType)) sound.nodup).signal rfl true
      refine waiters_nil (Core.Turned.refl none signalled.nodup).incTurnCount ?_
      exact waiters_signal_all sound.nodup _

/-- **`lineupEnd`.** -/
theorem lineup_end (inv : LineupInv opaqueType b r members) (sound : Sound r.core r.spot)
    (outside : r.spot tid = .outside) (took : Took o r tid (.called (.lineupEnd opaqueType)) r')
    (member : tid ∈ members) (few : r.core.tm.nthread ≤ maxThreadNum) :
    LineupKept opaqueType b r tid (some (.called (.lineupEnd opaqueType))) r'
      (members.erase tid) := by
  -- in the phase `ARRIVING` the thread would be in line
  have phase : b.arriving = false := by
    cases isArriving : b.arriving with
    | false => rfl
    | true =>
      have here := ((inv.arriving isArriving).2 tid member).1
      rw [outside] at here
      cases here
  obtain ⟨active, empty⟩ := inv.leaving phase
  have small : b.nactive < unsignedMod := by
    have count := members_le inv.nodup inv.known
    rw [inv.nactive]
    unfold maxThreadNum at few
    unfold unsignedMod
    omega
  have length : (members.erase tid).length = b.nactive - 1 := by
    rw [List.length_erase_of_mem member, inv.nactive]
  have turn : r.turnOf o tid (.called (.lineupEnd opaqueType)) = _ :=
    @lineupEnd_turn _ (r.env tid) opaqueType b inv.isLineup active small
  have gave := took.gave
  rw [turn, phase, Bool.false_or] at gave
  cases gave
  refine ⟨{ b with nactive := b.nactive - 1, arriving := decide (b.nactive - 1 = 0) },
    ⟨Function.update_self _ _ _, inv.positive, length.symm, inv.nodup.erase tid, fun t inside => ?_,
      fun t there => ?_, fun isArriving => ?_, fun isLeaving => ⟨?_, ?_⟩⟩, rfl,
    ⟨fun both => ⟨by omega, of_decide_eq_true both.2⟩, fun both => ⟨phase, decide_eq_true both.2⟩⟩,
    fun isArriving => ?_⟩
  · exact (inv.known t (List.mem_of_mem_erase inside)).trans_le (took_nthread took)
  · have other : t ≠ tid := by
      rintro rfl
      rw [put_spot_self] at there
      cases there
    refine (List.mem_erase_of_ne other).mpr (inv.woken t ?_)
    exact (took.spots t other).symm.trans there
  · have none : b.nactive - 1 = 0 := of_decide_eq_true isArriving
    have nobody : members.erase tid = [] := List.length_eq_zero_iff.mp (length.trans none)
    refine ⟨none.symm ▸ inv.positive, fun t inside => ?_⟩
    rw [nobody] at inside
    cases inside
  · have some : ¬ b.nactive - 1 = 0 := of_decide_eq_false isLeaving
    exact Nat.pos_of_ne_zero some
  · exact waiters_nil (Core.Turned.refl none sound.nodup).incTurnCount empty
  · rw [phase] at isArriving
    cases isArriving

/-! ### Runs -/

/-- Only the wrappers of soft barriers work on a soft barrier. -/
theorem lineup_of_object (isLineup : stage.object = some (.lineup opaqueType)) :
    stage = .called (.lineupStart opaqueType) ∨ stage = .called (.lineupEnd opaqueType) ∨
      stage = .lineupWoken opaqueType ∨ stage.resetsLineup opaqueType = true := by
  cases stage with
  | called call =>
    cases call with
    | lineupInit l count timeoutTurns =>
      cases isLineup
      exact Or.inr (Or.inr (Or.inr (beq_self_eq_true _)))
    | lineupDestroy l =>
      cases isLineup
      exact Or.inr (Or.inr (Or.inr (beq_self_eq_true _)))
    | lineupStart l =>
      cases isLineup
      exact Or.inl rfl
    | lineupEnd l =>
      cases isLineup
      exact Or.inr (Or.inl rfl)
    | _ => cases isLineup
  | lineupWoken l =>
    cases isLineup
    exact Or.inr (Or.inr (Or.inl rfl))
  | retry loop => cases loop <;> cases isLineup
  | _ => cases isLineup

/-- Other turns change nothing about who is between start and end. -/
theorem members_of_other (notStart : stage ≠ .called (.lineupStart opaqueType))
    (notEnd : stage ≠ .called (.lineupEnd opaqueType)) {label : Tid × Move}
    (isStage : r.stageOf label.1 label.2 = some stage) :
    r.lineupMembers opaqueType members label = members := by
  unfold lineupMembers
  rw [isStage]
  split
  · rename_i l isStart
    refine if_neg fun same => notStart ?_
    rw [Option.some.inj isStart, same]
  · rename_i l isEnd
    refine if_neg fun same => notEnd ?_
    rw [Option.some.inj isEnd, same]
  · rfl

/-- **Every step keeps what the phases say.** -/
theorem lineupInv_step {label : Tid × Move} (inv : LineupInv opaqueType b r members)
    (sound : Sound r.core r.spot) (entered : Entered r)
    (matched : LineupMatched opaqueType (r, members) label) (stepped : r.step o label = some r') :
    LineupKept opaqueType b r label.1 (r.stageOf label.1 label.2) r'
      (r.lineupMembers opaqueType members label) := by
  obtain ⟨tid, move⟩ := label
  obtain ⟨few, each⟩ := matched
  cases isStage : r.stageOf tid move with
  | none =>
    have same : r.lineupMembers opaqueType members (tid, move) = members := by
      unfold lineupMembers
      rw [isStage]
    rw [same]
    exact lineup_idle inv sound stepped isStage
  | some stage =>
    obtain ⟨starts, ends, notReset⟩ := each stage isStage
    have took := took_of_step sound.nodup stepped isStage
    by_cases isStart : stage = .called (.lineupStart opaqueType)
    · have more : r.lineupMembers opaqueType members (tid, move) = tid :: members := by
        unfold lineupMembers
        rw [isStage, isStart]
        exact if_pos rfl
      rw [more]
      subst isStart
      exact lineup_start inv sound took (starts rfl) few
    · by_cases isEnd : stage = .called (.lineupEnd opaqueType)
      · have fewer : r.lineupMembers opaqueType members (tid, move) = members.erase tid := by
          unfold lineupMembers
          rw [isStage, isEnd]
          exact if_pos rfl
        rw [fewer]
        subst isEnd
        exact lineup_end inv sound (outside_of_called entered isStage) took (ends rfl) few
      · rw [members_of_other isStart isEnd isStage]
        by_cases isWoken : stage = .lineupWoken opaqueType
        · subst isWoken
          exact lineup_woken inv sound (inside_of_stageOf isStage fun call => nofun) took
        · refine lineup_other inv sound entered isStage took fun isLineup => ?_
          rcases lineup_of_object isLineup with same | same | same | resets
          · exact isStart same
          · exact isEnd same
          · exact isWoken same
          · rw [notReset] at resets
            cases resets

/-- The soft barrier has been initialised, and no thread is in `lineupStart`. -/
structure FreshLineup (opaqueType count timeoutTurns : Nat) (r : Recorder) : Prop where
  isLineup : r.shared.refcntBars opaqueType = some { count := count, timeout := timeoutTurns }
  away : ∀ t, r.spot t ≠ .inside (.lineupWoken opaqueType)

theorem lineupInv_fresh {count timeoutTurns : Nat} (positive : 1 ≤ count)
    (fresh : FreshLineup opaqueType count timeoutTurns r) :
    LineupInv opaqueType { count := count, timeout := timeoutTurns } r [] :=
  ⟨fresh.isLineup, positive, rfl, List.nodup_nil, fun _ member => (nomatch member),
    fun t there => absurd there (fresh.away t),
    fun _ => ⟨positive, fun _ member => (nomatch member)⟩, nofun⟩

/-- **Soft barriers keep to their phases**, in any order of turns and timeouts. Between turns:
* while the phase is `ARRIVING`, `nactive` is less than `count`, and every thread between its start and
  its end waits on the soft barrier, or its wait timed out and it has not had the turn since;
* while the phase is `LEAVING`, no thread waits on the soft barrier;
* the phase goes back to `ARRIVING` exactly when `nactive` goes back to zero, and whoever makes it
  `LEAVING` is either the arrival that makes `nactive` equal to `count` or a thread whose wait timed
  out. -/
theorem lineup_phases (o : Options) (mainTh : PthreadT) (shared : Shared)
    (before : List (Tid × Move)) (start : Recorder)
    (began : exec (step o) (init o mainTh shared) before = some start)
    (opaqueType count timeoutTurns : Nat) (positive : 1 ≤ count)
    (fresh : FreshLineup opaqueType count timeoutTurns start) (labels : List (Tid × Move))
    (matched : Along (lineupStep o opaqueType) (LineupMatched opaqueType) (start, []) labels)
    (r : Recorder) (members : List Tid)
    (ran : exec (lineupStep o opaqueType) (start, []) labels = some (r, members)) :
    ∃ b, r.shared.refcntBars opaqueType = some b ∧ b.nactive = members.length ∧
      (b.arriving = true → b.nactive < b.count ∧ ∀ t ∈ members,
        t ∈ r.core.waiters (.lineup opaqueType) ∨
          (r.spot t = .inside (.lineupWoken opaqueType) ∧ t ∉ r.core.waitq ∧
            (r.core.waits t).wakeReason = .timedout)) ∧
      (b.arriving = false → r.core.waiters (.lineup opaqueType) = []) ∧
      ∀ label r' members', LineupMatched opaqueType (r, members) label →
        lineupStep o opaqueType (r, members) label = some (r', members') →
        ∃ b', r'.shared.refcntBars opaqueType = some b' ∧
          LineupStep opaqueType b b' r label.1 (r.stageOf label.1 label.2) := by
  obtain ⟨soundStart, enteredStart⟩ := reached_run began
  obtain ⟨⟨sound, entered⟩, b, inv⟩ : (Sound r.core r.spot ∧ Entered r) ∧
      ∃ b, LineupInv opaqueType b r members := by
    refine exec_invariant (fun s : Recorder × List Tid => (Sound s.1.core s.1.spot ∧ Entered s.1) ∧
      ∃ b, LineupInv opaqueType b s.1 s.2) ?_
      ⟨⟨soundStart, enteredStart⟩, _, lineupInv_fresh positive fresh⟩ matched ran
    rintro ⟨s, inside⟩ label ⟨next, inside'⟩ ⟨⟨sound, entered⟩, b, inv⟩ fine moved
    obtain ⟨next', stepped, same⟩ := Option.map_eq_some_iff.mp moved
    cases same
    obtain ⟨b', inv', -⟩ := lineupInv_step inv sound entered fine stepped
    exact ⟨⟨sound_step sound stepped, entered_step sound.nodup entered stepped⟩, b', inv'⟩
  refine ⟨b, inv.isLineup, inv.nactive, fun isArriving => ?_, fun isLeaving => (inv.leaving isLeaving).2,
    fun label r' members' fine moved => ?_⟩
  · obtain ⟨below, inLine⟩ := inv.arriving isArriving
    refine ⟨below, fun t member => ?_⟩
    obtain ⟨here, inside | fired⟩ := inLine t member
    · exact Or.inl (mem_waiters.mpr ⟨inside, chan_of_inLine sound here inside⟩)
    · exact Or.inr ⟨here, fired⟩
  · obtain ⟨next, stepped, same⟩ := Option.map_eq_some_iff.mp moved
    cases same
    obtain ⟨b', inv', phase⟩ := lineupInv_step inv sound entered fine stepped
    exact ⟨b', inv'.isLineup, phase⟩

/-- Thread `2` is at the soft barrier `5`, for two threads and at most three turns; the main thread does
not come. -/
def lateAtLineup : List (Tid × Move) :=
  quick 0 (.createIdle 101) ++ quick 0 (.create 102 3 0) ++ [(2, .call (.lineupStart 5))] ++
    (List.replicate 6 (quick 0 .dummySync)).flatten

/-- The objects of that run. -/
def oneLineup : Shared := { refcntBars := fun _ => some { count := 2, timeout := 3 } }

/-- Thread `2` has timed out, and opens the soft barrier with its next turn. -/
theorem lineup_phases_lateAtLineup :
    ∃ r b, exec (lineupStep {} 5) (init {} 100 oneLineup, []) lateAtLineup = some (r, [2]) ∧
      r.shared.refcntBars 5 = some b ∧ r.core.waiters (.lineup 5) = [] ∧
      (b.arriving = true → (2 ∈ r.core.waiters (.lineup 5) ∨
        (r.spot 2 = .inside (.lineupWoken 5) ∧ 2 ∉ r.core.waitq ∧
          (r.core.waits 2).wakeReason = .timedout))) ∧
      ∃ r' members' b', lineupStep {} 5 (r, [2]) (2, .resume) = some (r', members') ∧
        r'.shared.refcntBars 5 = some b' ∧ LineupStep 5 b b' r 2 (r.stageOf 2 .resume) := by
  have found : (exec (lineupStep {} 5) (init {} 100 oneLineup, []) lateAtLineup).any
      (fun s => decide (s.2 = [2] ∧ s.1.core.waiters (.lineup 5) = [] ∧
        LineupMatched 5 s (2, .resume) ∧ (lineupStep {} 5 s (2, .resume)).isSome = true)) = true := by
    decide +kernel
  obtain ⟨⟨r, members⟩, ran, here⟩ := exec_of_any found
  obtain ⟨isMembers, empty, fine, goesOn⟩ := of_decide_eq_true here
  obtain rfl : members = [2] := isMembers
  have matched : Along (lineupStep {} 5) (LineupMatched 5) (init {} 100 oneLineup, []) lateAtLineup := by
    decide +kernel
  obtain ⟨b, isLineup, -, arriving, -, steps⟩ := lineup_phases {} 100 oneLineup [] _ (exec_nil _)
    5 2 3 (by decide) ⟨rfl, fun t => nofun⟩ lateAtLineup matched r [2] ran
  obtain ⟨⟨r', members'⟩, moved⟩ := Option.isSome_iff_exists.mp goesOn
  obtain ⟨b', isLineup', phase⟩ := steps (2, .resume) r' members' fine moved
  exact ⟨r, b, ran, isLineup, empty, fun isArriving => (arriving isArriving).2 2 (by decide),
    r', members', b', moved, isLineup', phase⟩

end Recorder

end MinSmt
