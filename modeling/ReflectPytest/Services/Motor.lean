import ReflectPytest.Messages

set_option autoImplicit false

/-! # MotorService

Executes motor command sequences: a `MotorSequence` replaces whatever is running, a `PhysicsTick`
consumes the time of the current step. Each handler runs under `mu_` and publishes at most one
`MotorStatus` from inside it, so a handler is a function to the new state and that status. -/

namespace ReflectPytest

/-- `std::clamp(speed_rpm, -6000, 6000)`. -/
def clampRpm (rpm : Int) : Int := if rpm < -6000 then -6000 else if 6000 < rpm then 6000 else rpm

theorem clampRpm_bounds (rpm : Int) : -6000 ≤ clampRpm rpm ∧ clampRpm rpm ≤ 6000 := by
  unfold clampRpm
  split_ifs <;> omega

structure MotorService where
  active : Bool
  currentCmd : MotorSequencePayload
  currentStepIdx : Nat
  stepRemainingUs : Nat

namespace MotorService

/-- The state of a freshly constructed service. -/
def init : MotorService := ⟨false, default, 0, 0⟩

/-- The command as the service stores it: at most `kMaxSubCmds` steps, their speeds clamped. -/
def accept (cmd : MotorSequencePayload) : MotorSequencePayload :=
  let numSteps := min cmd.numSteps kMaxSubCmds
  { cmd with
    numSteps := numSteps
    steps := fun i =>
      if i.val < numSteps then { cmd.steps i with speedRpm := clampRpm (cmd.steps i).speedRpm }
      else cmd.steps i }

/-- `start_immediately`. -/
def startsImmediately (cmd : MotorSequencePayload) : Bool :=
  decide (0 < cmd.numSteps) && decide (0 < (cmd.steps 0).durationUs)

/-- `on_message(MotorSequencePayload)`. -/
def onMotorSequence (s : MotorService) (cmd : MotorSequencePayload) :
    MotorService × MotorStatusPayload :=
  let currentCmd := accept cmd
  if startsImmediately currentCmd then
    (⟨true, currentCmd, 0, (currentCmd.steps 0).durationUs⟩,
      ⟨currentCmd.cmdId, (currentCmd.steps 0).speedRpm, true⟩)
  else
    ({ s with active := false, currentCmd := currentCmd, currentStepIdx := 0 },
      ⟨currentCmd.cmdId, 0, false⟩)

/-- `advance_step`; `current_step_idx_` is a `uint8_t`. -/
def advanceStep (s : MotorService) : MotorService × MotorStatusPayload :=
  let idx := (s.currentStepIdx + 1) % 2 ^ 8
  if idx < s.currentCmd.numSteps then
    let step := (s.currentCmd.steps.get? idx).getD default
    ({ s with currentStepIdx := idx, stepRemainingUs := step.durationUs },
      ⟨s.currentCmd.cmdId, step.speedRpm, true⟩)
  else
    ({ s with currentStepIdx := idx, active := false }, ⟨s.currentCmd.cmdId, 0, false⟩)

/-- The tick belongs to the running command. -/
def charges (s : MotorService) (tick : PhysicsTickPayload) : Bool :=
  s.active && decide (tick.cmdId = s.currentCmd.cmdId)

/-- `on_message(PhysicsTickPayload)`. -/
def onPhysicsTick (s : MotorService) (tick : PhysicsTickPayload) :
    MotorService × Option MotorStatusPayload :=
  if !s.charges tick then (s, none)
  else if s.stepRemainingUs ≤ tick.dtUs then
    let (s', status) := s.advanceStep
    (s', some status)
  else ({ s with stepRemainingUs := s.stepRemainingUs - tick.dtUs }, none)

/-! ## What the service last announced -/

/-- The step a running service is in. -/
def currentStep (s : MotorService) : MotorSubCmd :=
  (s.currentCmd.steps.get? s.currentStepIdx).getD default

/-- The `MotorStatus` that describes the present state: the running step's speed, or a stop. -/
def status (s : MotorService) : MotorStatusPayload :=
  ⟨s.currentCmd.cmdId, if s.active then s.currentStep.speedRpm else 0, s.active⟩

@[simp] theorem status_cmdId (s : MotorService) : s.status.cmdId = s.currentCmd.cmdId := rfl

@[simp] theorem status_isActive (s : MotorService) : s.status.isActive = s.active := rfl

@[simp] theorem accept_cmdId (cmd : MotorSequencePayload) : (accept cmd).cmdId = cmd.cmdId := rfl

/-- A `MotorSequence` is announced by the status of the state it leaves. -/
theorem onMotorSequence_status (s : MotorService) (cmd : MotorSequencePayload) :
    (s.onMotorSequence cmd).2 = (s.onMotorSequence cmd).1.status := by
  unfold onMotorSequence
  dsimp only
  split
  · rfl
  · rfl

theorem onMotorSequence_cmd (s : MotorService) (cmd : MotorSequencePayload) :
    (s.onMotorSequence cmd).1.currentCmd = accept cmd := by
  unfold onMotorSequence
  dsimp only
  split <;> rfl

theorem onMotorSequence_active (s : MotorService) (cmd : MotorSequencePayload) :
    (s.onMotorSequence cmd).1.active = startsImmediately (accept cmd) := by
  unfold onMotorSequence
  dsimp only
  split
  · next h => exact h.symm
  · next h => exact (Bool.eq_false_iff.2 h).symm

/-- Advancing is announced by the status of the state it leaves. -/
theorem advanceStep_status {s : MotorService} (hs : s.active = true) :
    s.advanceStep.2 = s.advanceStep.1.status := by
  unfold advanceStep
  dsimp only
  split
  · simp [status, currentStep, hs]
  · simp [status]

theorem advanceStep_cmd (s : MotorService) : s.advanceStep.1.currentCmd = s.currentCmd := by
  unfold advanceStep
  dsimp only
  split <;> rfl

/-- **What a tick can do**: nothing, when it is not charged; otherwise shorten the running step, or
    advance and announce the state it leaves. -/
theorem onPhysicsTick_cases (s : MotorService) (tick : PhysicsTickPayload) :
    (s.charges tick = false ∧ s.onPhysicsTick tick = (s, none)) ∨
    (s.charges tick = true ∧ tick.dtUs < s.stepRemainingUs ∧
      s.onPhysicsTick tick = ({ s with stepRemainingUs := s.stepRemainingUs - tick.dtUs }, none)) ∨
    (s.charges tick = true ∧ s.stepRemainingUs ≤ tick.dtUs ∧
      s.onPhysicsTick tick = (s.advanceStep.1, some s.advanceStep.1.status)) := by
  unfold onPhysicsTick
  cases hc : s.charges tick with
  | false => exact Or.inl ⟨rfl, rfl⟩
  | true =>
      have hactive : s.active = true := (Bool.and_eq_true_iff.1 hc).1
      by_cases hle : s.stepRemainingUs ≤ tick.dtUs
      · refine Or.inr (Or.inr ⟨rfl, hle, ?_⟩)
        simp [hle, advanceStep_status hactive]
      · refine Or.inr (Or.inl ⟨rfl, by omega, ?_⟩)
        simp [hle]

theorem onPhysicsTick_cmd (s : MotorService) (tick : PhysicsTickPayload) :
    (s.onPhysicsTick tick).1.currentCmd = s.currentCmd := by
  rcases s.onPhysicsTick_cases tick with ⟨_, h⟩ | ⟨_, _, h⟩ | ⟨_, _, h⟩ <;> rw [h]
  exact s.advanceStep_cmd

/-- A status published by a tick describes the state the tick leaves. -/
theorem onPhysicsTick_status {s : MotorService} {tick : PhysicsTickPayload}
    {ms : MotorStatusPayload} (h : (s.onPhysicsTick tick).2 = some ms) :
    ms = (s.onPhysicsTick tick).1.status := by
  rcases s.onPhysicsTick_cases tick with ⟨_, he⟩ | ⟨_, _, he⟩ | ⟨_, _, he⟩ <;> rw [he] at h ⊢ <;>
    simp_all

/-- A tick that publishes nothing leaves the described state as it was. -/
theorem onPhysicsTick_status_of_none {s : MotorService} {tick : PhysicsTickPayload}
    (h : (s.onPhysicsTick tick).2 = none) : (s.onPhysicsTick tick).1.status = s.status := by
  rcases s.onPhysicsTick_cases tick with ⟨_, he⟩ | ⟨_, _, he⟩ | ⟨_, _, he⟩ <;> rw [he] at h ⊢
  · rfl
  · simp at h

/-! ## The command being executed -/

/-- The service is executing `cmd` as it accepted it, at one of its steps if it is running. -/
structure Executes (s : MotorService) (cmd : MotorSequencePayload) : Prop where
  command : s.currentCmd = accept cmd
  step : s.active = true → s.currentStepIdx < s.currentCmd.numSteps

theorem accept_numSteps_le (cmd : MotorSequencePayload) : (accept cmd).numSteps ≤ kMaxSubCmds :=
  Nat.min_le_right _ _

theorem init_executes : init.Executes default :=
  ⟨by decide, fun h => absurd h Bool.false_ne_true⟩

theorem onMotorSequence_executes (s : MotorService) (cmd : MotorSequencePayload) :
    (s.onMotorSequence cmd).1.Executes cmd := by
  refine ⟨s.onMotorSequence_cmd cmd, fun hactive => ?_⟩
  rw [onMotorSequence_active] at hactive
  simp only [onMotorSequence, hactive, if_true]
  exact of_decide_eq_true (Bool.and_eq_true_iff.1 hactive).1

theorem onPhysicsTick_executes {s : MotorService} {cmd : MotorSequencePayload}
    (h : s.Executes cmd) (tick : PhysicsTickPayload) : (s.onPhysicsTick tick).1.Executes cmd := by
  refine ⟨(s.onPhysicsTick_cmd tick).trans h.command, ?_⟩
  rcases s.onPhysicsTick_cases tick with ⟨_, he⟩ | ⟨_, _, he⟩ | ⟨_, _, he⟩ <;> rw [he]
  · exact h.step
  · exact h.step
  · unfold advanceStep
    dsimp only
    split
    · next hlt => exact fun _ => hlt
    · exact fun h => absurd h Bool.false_ne_true

/-- The accepted steps are the received ones with their speeds clamped. -/
theorem accept_speedRpm (cmd : MotorSequencePayload) {i : Nat} (hi : i < (accept cmd).numSteps) :
    (((accept cmd).steps.get? i).getD default).speedRpm =
      clampRpm ((cmd.steps.get? i).getD default).speedRpm := by
  have hbound : i < kMaxSubCmds := lt_of_lt_of_le hi (accept_numSteps_le cmd)
  rw [StdArray.get?_of_lt _ hbound, StdArray.get?_of_lt _ hbound, Option.getD_some,
    Option.getD_some]
  exact congrArg MotorSubCmd.speedRpm (if_pos hi)

/-- The announced speed is the clamped speed of the step the service is in. -/
theorem Executes.status_speedRpm {s : MotorService} {cmd : MotorSequencePayload}
    (h : s.Executes cmd) : s.status.speedRpm =
      if s.active then clampRpm ((cmd.steps.get? s.currentStepIdx).getD default).speedRpm
      else 0 := by
  unfold status currentStep
  dsimp only
  split
  · next hactive =>
      have hstep := h.step hactive
      rw [h.command] at hstep ⊢
      exact accept_speedRpm cmd hstep
  · rfl

end MotorService

end ReflectPytest
