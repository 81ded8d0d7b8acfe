import ReflectPytest.Sequential.Events
import Mathlib.Algebra.Order.Floor.Div
import Mathlib.Algebra.BigOperators.Group.Finset.Basic
import Mathlib.Tactic.Ring
import Mathlib.Tactic.NormNum

set_option autoImplicit false

/-! # The tick loop executes the schedule

`MotorService`, `StateService` and the clock form a closed loop: the status of the motor decides the
next tick, and the tick advances the motor. `MotorService.remaining` lists the steps the coming
ticks find the motor in; a tick takes the first one off (`remaining_tick`), and an accepted command
starts with the whole `schedule`. -/

namespace ReflectPytest

open SyncBus FloatOps

variable {F : Type} [FloatOps F]

/-! ## The motor's schedule -/

/-- The ticks of length `dt` a step of the given duration lasts. -/
def ticksOf (dt durationUs : Nat) : Nat := max 1 (durationUs ⌈/⌉ dt)

/-- The steps `i`, `i + 1`, ..., each repeated for as many ticks as it lasts. -/
def scheduleFrom (dt : Nat) (cmd : MotorSequencePayload) (i : Nat) : List Nat :=
  (List.range' i (min cmd.numSteps kMaxSubCmds - i)).flatMap fun j =>
    List.replicate (ticksOf dt ((cmd.steps.get? j).getD default).durationUs) j

/-- The step that is current at each tick of a command. -/
def schedule (dt : Nat) (cmd : MotorSequencePayload) : List Nat := scheduleFrom dt cmd 0

theorem scheduleFrom_of_lt (dt : Nat) {cmd : MotorSequencePayload} {i : Nat}
    (hi : i < min cmd.numSteps kMaxSubCmds) :
    scheduleFrom dt cmd i =
      List.replicate (ticksOf dt ((cmd.steps.get? i).getD default).durationUs) i ++
        scheduleFrom dt cmd (i + 1) := by
  unfold scheduleFrom
  obtain ⟨k, hk⟩ : ∃ k, min cmd.numSteps kMaxSubCmds - i = k + 1 :=
    ⟨min cmd.numSteps kMaxSubCmds - i - 1, by omega⟩
  rw [hk, List.range'_succ, List.flatMap_cons]
  congr 3
  omega

theorem scheduleFrom_of_le (dt : Nat) {cmd : MotorSequencePayload} {i : Nat}
    (hi : min cmd.numSteps kMaxSubCmds ≤ i) : scheduleFrom dt cmd i = [] := by
  simp [scheduleFrom, Nat.sub_eq_zero_of_le hi]

theorem ticksOf_of_le {dt d : Nat} (hdt : 0 < dt) (h : d ≤ dt) : ticksOf dt d = 1 := by
  have : d ⌈/⌉ dt ≤ 1 := by
    rw [ceilDiv_le_iff_le_mul hdt]
    omega
  exact max_eq_left this

theorem ticksOf_of_lt {dt d : Nat} (hdt : 0 < dt) (h : dt < d) :
    ticksOf dt d = ticksOf dt (d - dt) + 1 := by
  have hsub : 1 ≤ (d - dt) ⌈/⌉ dt := by
    by_contra hlt
    have hzero : (d - dt) ⌈/⌉ dt ≤ 0 := by omega
    rw [ceilDiv_le_iff_le_mul hdt] at hzero
    omega
  have hadd : d ⌈/⌉ dt = (d - dt) ⌈/⌉ dt + 1 := by
    simp only [Nat.ceilDiv_eq_add_pred_div]
    rw [← Nat.add_div_right _ hdt]
    congr 1
    omega
  unfold ticksOf
  rw [hadd, max_eq_right hsub, max_eq_right (by omega)]

namespace MotorService

/-- The steps the coming ticks find the motor in. -/
def remaining (dt : Nat) (cmd : MotorSequencePayload) (s : MotorService) : List Nat :=
  if s.active then
    List.replicate (ticksOf dt s.stepRemainingUs) s.currentStepIdx ++
      scheduleFrom dt cmd (s.currentStepIdx + 1)
  else []

theorem active_of_remaining {dt : Nat} {cmd : MotorSequencePayload} {s : MotorService} {i : Nat}
    {rest : List Nat} (h : s.remaining dt cmd = i :: rest) :
    s.active = true ∧ s.currentStepIdx = i := by
  unfold remaining at h
  split at h
  · next hactive =>
      obtain ⟨k, hk⟩ : ∃ k, ticksOf dt s.stepRemainingUs = k + 1 :=
        ⟨_, (Nat.sub_add_cancel (Nat.le_max_left 1 _)).symm⟩
      rw [hk, List.replicate_succ, List.cons_append] at h
      exact ⟨hactive, (List.cons.inj h).1⟩
  · exact absurd h (by simp)

theorem inactive_of_remaining {dt : Nat} {cmd : MotorSequencePayload} {s : MotorService}
    (h : s.remaining dt cmd = []) : s.active = false := by
  unfold remaining at h
  split at h
  · have hpos : 0 < ticksOf dt s.stepRemainingUs := Nat.le_max_left 1 _
    have := congrArg List.length h
    simp at this
    omega
  · next hoff => exact Bool.eq_false_iff.2 hoff

/-- A command that starts is followed by its whole schedule. -/
theorem remaining_onMotorSequence (dt : Nat) (s : MotorService) (cmd : MotorSequencePayload)
    (hn : 1 ≤ cmd.numSteps) (hd : 0 < (cmd.steps 0).durationUs) :
    (s.onMotorSequence cmd).1.remaining dt cmd = schedule dt cmd := by
  have hlt : 0 < min cmd.numSteps kMaxSubCmds := by
    simp only [kMaxSubCmds]
    omega
  have haccept : ((accept cmd).steps 0).durationUs = (cmd.steps 0).durationUs := by
    simp only [accept]
    split <;> rfl
  have hstart : startsImmediately (accept cmd) = true := by
    unfold startsImmediately
    rw [haccept]
    exact Bool.and_eq_true_iff.2 ⟨decide_eq_true hlt, decide_eq_true hd⟩
  unfold schedule
  rw [scheduleFrom_of_lt dt hlt]
  simp only [remaining, onMotorSequence, hstart, if_true, haccept]
  rfl

/-- The accepted steps last as long as the received ones. -/
theorem accept_durationUs (cmd : MotorSequencePayload) (i : Nat) :
    (((accept cmd).steps.get? i).getD default).durationUs =
      ((cmd.steps.get? i).getD default).durationUs := by
  unfold StdArray.get?
  split
  · simp only [Option.getD_some, accept]
    split <;> rfl
  · rfl

/-- **A tick of the running command takes its step off the schedule.** -/
theorem remaining_tick {dt : Nat} (hdt : 0 < dt) {cmd : MotorSequencePayload} {s : MotorService}
    (hexec : s.Executes cmd) {tick : PhysicsTickPayload} (hcharge : s.charges tick = true)
    (hlen : tick.dtUs = dt) :
    s.remaining dt cmd = s.currentStepIdx :: (s.onPhysicsTick tick).1.remaining dt cmd := by
  have hactive : s.active = true := (Bool.and_eq_true_iff.1 hcharge).1
  have hbound := hexec.step hactive
  have hmax := accept_numSteps_le cmd
  rw [hexec.command] at hbound
  have hsmall : s.currentStepIdx + 1 ≤ 5 := le_trans hbound hmax
  have hidx : (s.currentStepIdx + 1) % 2 ^ 8 = s.currentStepIdx + 1 := by omega
  rcases s.onPhysicsTick_cases tick with ⟨hnot, -⟩ | ⟨-, hlt, he⟩ | ⟨-, hle, he⟩
  · rw [hcharge] at hnot
    exact absurd hnot (by decide)
  · rw [he, hlen] at *
    simp only [remaining, hactive, if_true, ticksOf_of_lt hdt hlt, List.replicate_succ,
      List.cons_append]
  · rw [he]
    rw [hlen] at hle
    simp only [remaining, hactive, if_true, ticksOf_of_le hdt hle, List.replicate_one,
      List.singleton_append, List.cons.injEq, true_and]
    unfold advanceStep
    simp only [hidx, hexec.command]
    by_cases hmore : s.currentStepIdx + 1 < (accept cmd).numSteps
    · simp only [hmore, if_true, hactive, accept_durationUs]
      exact scheduleFrom_of_lt dt hmore
    · simp only [hmore, if_false]
      exact scheduleFrom_of_le dt (not_lt.1 hmore)

end MotorService

/-! ## The closed loop -/

namespace App

/-- The loop has the steps `todo` of the command still to go through. -/
structure Follows (dt : Nat) (cmd : MotorSequencePayload) (todo : List Nat) (w : World F) :
    Prop where
  executes : w.motor.Executes cmd
  known : Matches w
  remaining : w.motor.remaining dt cmd = todo

/-- The speed the next tick carries. -/
def nextSpeed (cmd : MotorSequencePayload) : List Nat → Int
  | [] => 0
  | i :: _ => clampRpm ((cmd.steps.get? i).getD default).speedRpm

variable {dt : Nat} {cmd : MotorSequencePayload} {todo : List Nat} {w : World F}

omit [FloatOps F] in
theorem Follows.nextSpeed_eq (h : Follows dt cmd todo w) :
    w.motor.status.speedRpm = nextSpeed cmd todo := by
  rw [h.executes.status_speedRpm]
  cases todo with
  | nil =>
      rw [MotorService.inactive_of_remaining h.remaining]
      rfl
  | cons i rest =>
      obtain ⟨hactive, hidx⟩ := MotorService.active_of_remaining h.remaining
      rw [hactive, hidx]
      rfl

omit [FloatOps F] in
/-- The clock's snapshot carries the command and its speed. -/
theorem Follows.snapshot (h : Follows dt cmd todo w) :
    w.state.snapshot dt = ⟨cmd.cmdId, nextSpeed cmd todo, dt⟩ := by
  have hid : w.motor.currentCmd.cmdId = cmd.cmdId := congrArg (·.cmdId) h.executes.command
  have hspeed := h.nextSpeed_eq
  rw [show w.state = _ from h.known]
  cases todo with
  | nil =>
      simp only [StateService.snapshot, MotorService.status_cmdId, hid, hspeed, nextSpeed, ite_self]
  | cons i rest =>
      have hon := (MotorService.active_of_remaining h.remaining).1
      simp [StateService.snapshot, StateService.stateFor, hid, hon, hspeed]

omit [FloatOps F] in
theorem Matches.of_announced {ms : MotorStatusPayload} (hms : ms = w.motor.status)
    (hstate : ∃ s : StateService, w.state = s.onMotorStatus ms) : Matches w := by
  obtain ⟨s, hs⟩ := hstate
  rw [Matches, hs, hms, StateService.onMotorStatus_eq]
  rfl

/-- An accepted command starts its schedule. -/
theorem follows_start (pf : Platform F) (w : World F) (hn : 1 ≤ cmd.numSteps)
    (hd : 0 < (cmd.steps 0).durationUs) :
    Follows dt cmd (schedule dt cmd) ((bus pf).publish (.motorSequence cmd) w) ∧
      ((bus pf).publish (.motorSequence cmd) w).kinematics.positionM = w.kinematics.positionM := by
  obtain ⟨hmotor, hstate, hpos⟩ := core_eq_iff.1 (publish_motorSequence pf cmd w)
  refine ⟨⟨?_, ?_, ?_⟩, hpos⟩
  · rw [hmotor]
    exact w.motor.onMotorSequence_executes cmd
  · exact .of_announced (by rw [hmotor]) ⟨_, hstate⟩
  · rw [hmotor]
    exact MotorService.remaining_onMotorSequence dt w.motor cmd hn hd

/-- A datagram without a sequence does not disturb it. -/
theorem Follows.datagram (pf : Platform F) (h : Follows dt cmd todo w) {now : Nat} {m : Msg F}
    (hquiet : ¬ SequenceSince w.history (step pf w (.datagram now m))) :
    Follows dt cmd todo (step pf w (.datagram now m)) ∧
      (step pf w (.datagram now m)).kinematics.positionM = w.kinematics.positionM := by
  obtain ⟨hmotor, hstate, hpos⟩ := core_eq_iff.1 (step_datagram pf w now m hquiet)
  exact ⟨⟨by rw [hmotor]; exact h.executes, h.known.congr hmotor hstate,
    by rw [hmotor]; exact h.remaining⟩, hpos⟩

/-- **Step lemma.** A tick takes the first step off what is left and moves the vehicle at its speed;
    once nothing is left it changes nothing. -/
theorem Follows.tick {pf : Platform F} (hdt : 0 < pf.kTickUs) (h : Follows pf.kTickUs cmd todo w)
    {now : Nat} (hquiet : ¬ SequenceSince w.history (step pf w (.tick now))) :
    Follows pf.kTickUs cmd todo.tail (step pf w (.tick now)) ∧
      (step pf w (.tick now)).kinematics.positionM = w.kinematics.positionM +
        ofInt (nextSpeed cmd todo) * kRpmToMps * (ofInt pf.kTickUs / lit 1000000) := by
  obtain ⟨hmotor, hstate, hpos⟩ := core_eq_iff.1 (step_tick pf w now hquiet)
  rw [h.snapshot] at hmotor hstate hpos
  refine ⟨⟨?_, ?_, ?_⟩, hpos⟩
  · rw [hmotor]
    exact MotorService.onPhysicsTick_executes h.executes _
  · cases hms : (w.motor.onPhysicsTick ⟨cmd.cmdId, nextSpeed cmd todo, pf.kTickUs⟩).2 with
    | some ms =>
        rw [hms] at hstate
        exact .of_announced ((MotorService.onPhysicsTick_status hms).trans (by rw [hmotor]))
          ⟨_, hstate⟩
    | none =>
        rw [hms] at hstate
        have hstatus := MotorService.onPhysicsTick_status_of_none hms
        have hactive := congrArg MotorStatusPayload.isActive hstatus
        simp only [MotorService.status_isActive] at hactive
        rw [Matches, hmotor, hstate, hstatus, hactive]
        exact h.known
  · rw [hmotor]
    cases todo with
    | nil =>
        have hoff := MotorService.inactive_of_remaining h.remaining
        have hnot : w.motor.charges ⟨cmd.cmdId, nextSpeed cmd [], pf.kTickUs⟩ = false := by
          simp [MotorService.charges, hoff]
        rw [MotorService.onPhysicsTick, hnot]
        exact h.remaining
    | cons i rest =>
        obtain ⟨hactive, -⟩ := MotorService.active_of_remaining h.remaining
        have hcharge :
            w.motor.charges ⟨cmd.cmdId, nextSpeed cmd (i :: rest), pf.kTickUs⟩ = true := by
          simp [MotorService.charges, hactive, h.executes.command]
        have htick := MotorService.remaining_tick hdt h.executes hcharge rfl
        rw [h.remaining] at htick
        exact (List.cons.inj htick).2.symm

/-- How many of the events are ticks. -/
def ticks (es : List (Event F)) : Nat :=
  es.countP fun e => match e with
    | .tick _ => true
    | .datagram _ _ => false

omit [FloatOps F] in
theorem ticks_tick (now : Nat) (es : List (Event F)) : ticks (.tick now :: es) = ticks es + 1 :=
  List.countP_cons_of_pos rfl

omit [FloatOps F] in
/-- Without a sequence during all events there is none during the first, nor during the rest. -/
theorem quiet_cons [FloatOps F] {pf : Platform F} {e : Event F} {es : List (Event F)}
    (hquiet : ¬ SequenceSince w.history (run pf w (e :: es))) :
    ¬ SequenceSince w.history (step pf w e) ∧
      ¬ SequenceSince (step pf w e).history (run pf (step pf w e) es) :=
  ⟨fun h => hquiet (h.later (run_history pf (step pf w e) es)),
    fun h => hquiet (h.earlier (step_history pf w e))⟩

/-- **Run lemma.** Every tick takes one step off. -/
theorem Follows.run {pf : Platform F} (hdt : 0 < pf.kTickUs) {es : List (Event F)} {todo : List Nat}
    {w : World F} (h : Follows pf.kTickUs cmd todo w)
    (hquiet : ¬ SequenceSince w.history (run pf w es)) :
    Follows pf.kTickUs cmd (todo.drop (ticks es)) (run pf w es) := by
  induction es generalizing todo w with
  | nil => exact h
  | cons e es ih =>
      obtain ⟨hfirst, hrest⟩ := quiet_cons hquiet
      cases e with
      | tick now =>
          have := ih (h.tick hdt hfirst).1 hrest
          rwa [List.drop_tail, ← ticks_tick now] at this
      | datagram now m => exact ih (h.datagram pf hfirst).1 hrest

/-- The distance covered in one tick of a step. -/
def tickDistance (dt : Nat) (cmd : MotorSequencePayload) (i : Nat) : ℚ :=
  clampRpm ((cmd.steps.get? i).getD default).speedRpm * (1 / 100) * (dt / 1000000)

/-- **Run lemma.** The vehicle moves by the distances of the steps taken off. -/
theorem Follows.run_position {pf : Platform ℚ} (hdt : 0 < pf.kTickUs) {es : List (Event ℚ)}
    {todo : List Nat} {w : World ℚ} (h : Follows pf.kTickUs cmd todo w)
    (hquiet : ¬ SequenceSince w.history (App.run pf w es)) :
    (App.run pf w es).kinematics.positionM = w.kinematics.positionM +
      ((todo.take (ticks es)).map (tickDistance pf.kTickUs cmd)).sum := by
  induction es generalizing todo w with
  | nil => simp [App.run, ticks]
  | cons e es ih =>
      obtain ⟨hfirst, hrest⟩ := quiet_cons hquiet
      cases e with
      | tick now =>
          obtain ⟨hnext, hpos⟩ := h.tick hdt hfirst
          refine (ih hnext hrest).trans ?_
          rw [hpos]
          cases todo with
          | nil => simp [nextSpeed]
          | cons i rest =>
              rw [ticks_tick, List.take_succ_cons, List.map_cons, List.sum_cons, List.tail_cons,
                ← add_assoc]
              rfl
      | datagram now m =>
          obtain ⟨hnext, hpos⟩ := h.datagram pf hfirst
          refine (ih hnext hrest).trans ?_
          rw [hpos]
          rfl

/-- The distances of a whole schedule, step by step. -/
theorem sum_schedule (dt : Nat) (cmd : MotorSequencePayload) (f : Nat → ℚ) :
    ((schedule dt cmd).map f).sum = ∑ i ∈ Finset.range (min cmd.numSteps kMaxSubCmds),
      ticksOf dt ((cmd.steps.get? i).getD default).durationUs * f i := by
  simp only [schedule, scheduleFrom, List.map_flatMap, List.map_replicate, Nat.sub_zero,
    ← List.range_eq_range']
  induction min cmd.numSteps kMaxSubCmds with
  | zero => rfl
  | succ n ih =>
      rw [List.range_succ, List.flatMap_append, List.sum_append, ih, Finset.sum_range_succ]
      simp

/-- **The tick loop executes the schedule.** From the publish of a command on, as long as no other
    sequence is published, the `k`-th tick finds the motor in the `k`-th step of the schedule and
    carries that step's clamped speed. After the last one the motor is inactive, the lifecycle is
    back at `Ready`, and in exact arithmetic the vehicle has moved by the distances of all steps. -/
theorem run_executes_schedule (cmd : MotorSequencePayload)
    (hn : 1 ≤ min cmd.numSteps kMaxSubCmds) (hd : 0 < (cmd.steps 0).durationUs) (dt : Nat)
    (hdt : 0 < dt) :
    (∀ (F : Type) [FloatOps F] (pf : Platform F) (w : World F) (es : List (Event F)),
      pf.kTickUs = dt →
      let w₁ := (bus pf).publish (.motorSequence cmd) w
      let w' := run pf w₁ es
      ¬ SequenceSince w₁.history w' →
      (∀ hk : ticks es < (schedule dt cmd).length,
        let i := (schedule dt cmd)[ticks es]
        w'.motor.active = true ∧ w'.motor.currentStepIdx = i ∧ (takeSnapshot pf w').2 =
          ⟨cmd.cmdId, clampRpm ((cmd.steps.get? i).getD default).speedRpm, dt⟩) ∧
      ((schedule dt cmd).length ≤ ticks es →
        w'.motor.active = false ∧ w'.state.state = .ready)) ∧
    (∀ (pf : Platform ℚ) (w : World ℚ) (es : List (Event ℚ)),
      pf.kTickUs = dt →
      let w₁ := (bus pf).publish (.motorSequence cmd) w
      let w' := run pf w₁ es
      ¬ SequenceSince w₁.history w' → (schedule dt cmd).length ≤ ticks es →
      w'.kinematics.positionM - w.kinematics.positionM =
        ∑ i ∈ Finset.range (min cmd.numSteps kMaxSubCmds),
          (clampRpm ((cmd.steps.get? i).getD default).speedRpm : ℚ) * (1 / 100) *
            (ticksOf dt ((cmd.steps.get? i).getD default).durationUs * (dt / 1000000))) := by
  have hn' : 1 ≤ cmd.numSteps := le_trans hn (Nat.min_le_left _ _)
  constructor
  · intro F _ pf w es hpf w₁ w' hquiet
    subst hpf
    have hrun := (follows_start pf w hn' hd).1.run hdt hquiet
    refine ⟨fun hk => ?_, fun hlast => ?_⟩
    · rw [List.drop_eq_getElem_cons hk] at hrun
      obtain ⟨hactive, hidx⟩ := MotorService.active_of_remaining hrun.remaining
      exact ⟨hactive, hidx, hrun.snapshot⟩
    · rw [List.drop_eq_nil_of_le hlast] at hrun
      have hoff := MotorService.inactive_of_remaining hrun.remaining
      refine ⟨hoff, ?_⟩
      rw [show w'.state = _ from hrun.known, hoff]
      rfl
  · intro pf w es hpf w₁ w' hquiet hlast
    subst hpf
    have hfollows : Follows pf.kTickUs cmd (schedule pf.kTickUs cmd)
        ((bus pf).publish (.motorSequence cmd) w) ∧
        ((bus pf).publish (.motorSequence cmd) w).kinematics.positionM = w.kinematics.positionM :=
      follows_start pf w hn' hd
    obtain ⟨hstart, hpos⟩ := hfollows
    have hsum : ∑ i ∈ Finset.range (min cmd.numSteps kMaxSubCmds),
        (ticksOf pf.kTickUs ((cmd.steps.get? i).getD default).durationUs : ℚ) *
          tickDistance pf.kTickUs cmd i =
        ∑ i ∈ Finset.range (min cmd.numSteps kMaxSubCmds),
          (clampRpm ((cmd.steps.get? i).getD default).speedRpm : ℚ) * (1 / 100) *
            (ticksOf pf.kTickUs ((cmd.steps.get? i).getD default).durationUs *
              (pf.kTickUs / 1000000)) := by
      refine Finset.sum_congr rfl fun i _ => ?_
      unfold tickDistance
      ring
    rw [← hsum, ← sum_schedule, sub_eq_iff_eq_add', ← hpos]
    have hmoved := hstart.run_position hdt hquiet
    rwa [List.take_of_length_le hlast] at hmoved

/-- Three ticks at 7000 rpm, clamped to 6000, one for a step without duration, and one backwards. -/
def shortCommand : MotorSequencePayload :=
  { cmdId := 7, numSteps := 3,
    steps := fun i =>
      if i.val = 0 then ⟨7000, 25000⟩ else if i.val = 1 then ⟨500, 0⟩ else ⟨-1000, 10000⟩ }

/-- The command accepted at the start, and handled for some ticks. -/
def shortRun (es : List (Event ℚ)) : World ℚ :=
  run (.libstdcxx fun _ _ => 0)
    ((bus (.libstdcxx fun _ _ => 0)).publish (.motorSequence shortCommand) World.init) es

theorem shortCommand_executes :
    (takeSnapshot (.libstdcxx fun _ _ => 0) (shortRun [.tick 1, .tick 2])).2 = ⟨7, 6000, 10000⟩ ∧
    (takeSnapshot (.libstdcxx fun _ _ => 0) (shortRun [.tick 1, .tick 2, .tick 3])).2 =
      ⟨7, 500, 10000⟩ ∧
    (shortRun [.tick 1, .tick 2, .tick 3, .tick 4, .tick 5]).motor.active = false ∧
    (shortRun [.tick 1, .tick 2, .tick 3, .tick 4, .tick 5]).kinematics.positionM = 7 / 4 := by
  obtain ⟨hticks, hmoved⟩ :=
    run_executes_schedule shortCommand (by decide) (by decide) 10000 (by decide)
  have hquiet : ∀ es ∈ [[Event.tick 1, .tick 2], [.tick 1, .tick 2, .tick 3],
      [.tick 1, .tick 2, .tick 3, .tick 4, .tick 5]],
      ¬ SequenceSince (shortRun []).history (shortRun es) := by
    intro es hes
    refine not_sequenceSince ?_
    revert es
    decide +kernel
  have hfirst := hticks ℚ _ World.init [.tick 1, .tick 2] rfl (hquiet _ (by simp))
  have hempty := hticks ℚ _ World.init [.tick 1, .tick 2, .tick 3] rfl (hquiet _ (by simp))
  have hlast := hticks ℚ _ World.init [.tick 1, .tick 2, .tick 3, .tick 4, .tick 5] rfl
    (hquiet _ (by simp))
  have hposition := hmoved _ World.init [.tick 1, .tick 2, .tick 3, .tick 4, .tick 5] rfl
    (hquiet _ (by simp)) (by decide)
  refine ⟨(hfirst.1 (by decide)).2.2, (hempty.1 (by decide)).2.2, (hlast.2 (by decide)).1, ?_⟩
  rw [sub_eq_iff_eq_add] at hposition
  refine hposition.trans ?_
  rw [show (World.init : World ℚ).kinematics.positionM = 0 from rfl, add_zero,
    show min shortCommand.numSteps kMaxSubCmds = 3 from rfl, Finset.sum_range_succ,
    Finset.sum_range_succ, Finset.sum_range_one]
  rw [show clampRpm ((shortCommand.steps.get? 0).getD default).speedRpm = 6000 by decide,
    show clampRpm ((shortCommand.steps.get? 1).getD default).speedRpm = 500 by decide,
    show clampRpm ((shortCommand.steps.get? 2).getD default).speedRpm = -1000 by decide,
    show ticksOf 10000 ((shortCommand.steps.get? 0).getD default).durationUs = 3 by decide,
    show ticksOf 10000 ((shortCommand.steps.get? 1).getD default).durationUs = 1 by decide,
    show ticksOf 10000 ((shortCommand.steps.get? 2).getD default).durationUs = 1 by decide]
  norm_num

end App

end ReflectPytest
