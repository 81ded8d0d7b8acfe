import ReflectPytest.Services.Motor
import ReflectPytest.Services.State
import Mathlib.Data.List.Induction

set_option autoImplicit false

/-! # Bounds on the motor

Whatever sequences and ticks arrive, in whatever order, the running step exists and has no more time
left than it lasts, and no speed leaves the clamp. `run_bounded` states this for `MotorService` and
for the copy of its last status from which `StateService` makes the ticks of all physics models. -/

namespace ReflectPytest

/-- A speed within the clamp, and no speed while inactive. -/
structure MotorStatusPayload.Bounded (ms : MotorStatusPayload) : Prop where
  speed : -6000 ≤ ms.speedRpm ∧ ms.speedRpm ≤ 6000
  inactive : ms.isActive = false → ms.speedRpm = 0

namespace MotorService

/-! ## The service on its own -/

inductive Input where
  | motorSequence (cmd : MotorSequencePayload)
  | physicsTick (tick : PhysicsTickPayload)

/-- Deliver one message. -/
def step (s : MotorService) : Input → MotorService × List MotorStatusPayload
  | .motorSequence cmd =>
      let (s, ms) := s.onMotorSequence cmd
      (s, [ms])
  | .physicsTick tick =>
      let (s, ms) := s.onPhysicsTick tick
      (s, ms.toList)

/-- Deliver a history of messages. -/
def run (s : MotorService) : List Input → MotorService × List MotorStatusPayload
  | [] => (s, [])
  | i :: rest =>
      let (s, mss) := s.step i
      let (s, mss') := s.run rest
      (s, mss ++ mss')

theorem run_append (s : MotorService) (pre rest : List Input) : s.run (pre ++ rest) =
    (((s.run pre).1.run rest).1, (s.run pre).2 ++ ((s.run pre).1.run rest).2) := by
  induction pre generalizing s with
  | nil => rfl
  | cons i pre ih => simp only [List.cons_append, run, ih, List.append_assoc]

theorem run_concat (s : MotorService) (pre : List Input) (i : Input) : s.run (pre ++ [i]) =
    (((s.run pre).1.step i).1, (s.run pre).2 ++ ((s.run pre).1.step i).2) := by
  rw [run_append]
  simp [run]

/-- The indices into `steps` a handler uses: in the clamping loop, in the test of the first step and
    for its status, and for the step a tick advances to. -/
def stepAccesses (s : MotorService) : Input → List Nat
  | .motorSequence cmd =>
      List.range (accept cmd).numSteps ++ (if 0 < (accept cmd).numSteps then [0] else []) ++
        if startsImmediately (accept cmd) then [0, 0] else []
  | .physicsTick tick =>
      if s.charges tick ∧ s.stepRemainingUs ≤ tick.dtUs ∧
          (s.currentStepIdx + 1) % 2 ^ 8 < s.currentCmd.numSteps then
        [(s.currentStepIdx + 1) % 2 ^ 8]
      else []

/-! ## The invariant -/

/-- At most five steps; a running service is in one of them and has no more of it left than there
    was. -/
structure Bounded (s : MotorService) : Prop where
  numSteps : s.currentCmd.numSteps ≤ kMaxSubCmds
  index : s.active = true → s.currentStepIdx < s.currentCmd.numSteps
  remaining : s.active = true → s.stepRemainingUs ≤ s.currentStep.durationUs

/-- What a handler may not do in the state: index `steps` out of bounds, let the remaining time or
    the step index wrap around. -/
structure Safe (s : MotorService) (i : Input) : Prop where
  accesses : ∀ k ∈ s.stepAccesses i, k < kMaxSubCmds
  remaining : ∀ tick, i = .physicsTick tick → s.charges tick = true →
    ¬ s.stepRemainingUs ≤ tick.dtUs →
      (s.onPhysicsTick tick).1.stepRemainingUs + tick.dtUs = s.stepRemainingUs
  index : s.active = true → s.currentStepIdx + 1 < 2 ^ 8

/-! ## Steps -/

/-- What is left of the running step is not more than the step. -/
def Remains (s : MotorService) : Prop :=
  s.active = true → s.stepRemainingUs ≤ s.currentStep.durationUs

theorem onMotorSequence_remains (s : MotorService) (cmd : MotorSequencePayload) :
    (s.onMotorSequence cmd).1.Remains := by
  unfold onMotorSequence
  dsimp only
  split
  · exact fun _ => le_refl _
  · exact fun hactive => absurd hactive Bool.false_ne_true

theorem onPhysicsTick_remains {s : MotorService} (h : s.Remains) (tick : PhysicsTickPayload) :
    (s.onPhysicsTick tick).1.Remains := by
  rcases s.onPhysicsTick_cases tick with ⟨-, he⟩ | ⟨-, -, he⟩ | ⟨-, -, he⟩ <;> rw [he]
  · exact h
  · exact fun hactive => (Nat.sub_le _ _).trans (h hactive)
  · unfold advanceStep
    dsimp only
    split
    · exact fun _ => le_refl _
    · exact fun hactive => absurd hactive Bool.false_ne_true

theorem Executes.bounded {s : MotorService} {cmd : MotorSequencePayload} (h : s.Executes cmd)
    (hremains : s.Remains) : s.Bounded where
  numSteps := h.command ▸ accept_numSteps_le cmd
  index := h.step
  remaining := hremains

theorem Executes.status_bounded {s : MotorService} {cmd : MotorSequencePayload}
    (h : s.Executes cmd) : s.status.Bounded where
  speed := by
    rw [h.status_speedRpm]
    split
    · exact clampRpm_bounds _
    · decide
  inactive hoff := by
    rw [h.status_speedRpm, if_neg (by simpa using hoff)]

/-- **Step lemma.** -/
theorem step_executes {s : MotorService} {cmd : MotorSequencePayload} (h : s.Executes cmd)
    (hremains : s.Remains) (i : Input) : ∃ cmd', (s.step i).1.Executes cmd' ∧
      (s.step i).1.Remains ∧ ∀ ms ∈ (s.step i).2, ms.Bounded := by
  cases i with
  | motorSequence cmd' =>
      have hexecutes := s.onMotorSequence_executes cmd'
      refine ⟨cmd', hexecutes, s.onMotorSequence_remains cmd', fun ms hms => ?_⟩
      have hpublished : ms = (s.onMotorSequence cmd').2 := List.mem_singleton.1 hms
      rw [hpublished, onMotorSequence_status]
      exact hexecutes.status_bounded
  | physicsTick tick =>
      have hexecutes := onPhysicsTick_executes h tick
      refine ⟨cmd, hexecutes, onPhysicsTick_remains hremains tick, fun ms hms => ?_⟩
      rw [onPhysicsTick_status (Option.mem_toList.1 hms)]
      exact hexecutes.status_bounded

/-- **Run lemma.** -/
theorem run_executes (history : List Input) : ∃ cmd, (init.run history).1.Executes cmd ∧
    (init.run history).1.Remains ∧ ∀ ms ∈ (init.run history).2, ms.Bounded := by
  induction history using List.reverseRecOn with
  | nil =>
      exact ⟨default, init_executes, fun hactive => absurd hactive Bool.false_ne_true,
        fun ms hms => absurd hms List.not_mem_nil⟩
  | append_singleton history i ih =>
      obtain ⟨cmd, hexecutes, hremains, hstatuses⟩ := ih
      obtain ⟨cmd', hexecutes', hremains', hlast⟩ := step_executes hexecutes hremains i
      rw [run_concat]
      refine ⟨cmd', hexecutes', hremains', fun ms hms => ?_⟩
      exact (List.mem_append.1 hms).elim (hstatuses ms) (hlast ms)

/-- Nothing goes out of bounds or wraps around in a bounded state. -/
theorem Bounded.safe {s : MotorService} (h : s.Bounded) (i : Input) : s.Safe i where
  accesses k hk := by
    cases i with
    | motorSequence cmd =>
        have hmax := accept_numSteps_le cmd
        simp only [stepAccesses, List.mem_append, List.mem_range] at hk
        rcases hk with (hk | hk) | hk
        · exact lt_of_lt_of_le hk hmax
        · split at hk <;> simp_all
        · split at hk <;> simp_all
    | physicsTick tick =>
        have hmax := h.numSteps
        simp only [stepAccesses] at hk
        split at hk
        · next hnext =>
            obtain rfl := List.mem_singleton.1 hk
            exact lt_of_lt_of_le hnext.2.2 hmax
        · exact absurd hk List.not_mem_nil
  remaining tick _ hcharges hpartial := by
    simp only [onPhysicsTick, hcharges, Bool.not_true, Bool.false_eq_true, if_false, hpartial]
    omega
  index hactive := by
    have hindex := h.index hactive
    have hmax := h.numSteps
    simp only [kMaxSubCmds] at hmax
    omega

/-! ## The ticks made from the statuses -/

/-- A speed within the clamp comes out of `StateService`, and none unless it is executing. -/
theorem snapshot_bounded (delivered : List MotorStatusPayload)
    (hdelivered : ∀ ms ∈ delivered, ms.Bounded) (kTickUs : Nat) :
    let state := delivered.foldl StateService.onMotorStatus .init
    (-6000 ≤ (state.snapshot kTickUs).speedRpm ∧ (state.snapshot kTickUs).speedRpm ≤ 6000) ∧
      (state.state ≠ .executing → (state.snapshot kTickUs).speedRpm = 0) := by
  intro state
  have hcached : state.lastRpm = 0 ∨ ∃ ms ∈ delivered, state.lastRpm = ms.speedRpm := by
    rcases List.eq_nil_or_concat delivered with rfl | ⟨rest, ms, rfl⟩
    · exact .inl rfl
    · refine .inr ⟨ms, by simp, ?_⟩
      simp [state, StateService.onMotorStatus_eq]
  have hlast : -6000 ≤ state.lastRpm ∧ state.lastRpm ≤ 6000 := by
    rcases hcached with hzero | ⟨ms, hms, hspeed⟩
    · omega
    · rw [hspeed]
      exact (hdelivered ms hms).speed
  unfold StateService.snapshot
  dsimp only
  split
  · exact ⟨by decide, fun _ => rfl⟩
  · next hexecuting => exact ⟨hlast, fun hnot => absurd hnot hexecuting⟩

/-- **MotorService stays within its bounds**: for every history of sequences and ticks, the state
    reached is bounded and no handler called in it goes out of bounds or wraps around; every status
    published on the way is bounded; and whatever part of them has been delivered to `StateService`,
    the tick it emits next has a speed within the clamp, which is 0 unless it is executing. -/
theorem run_bounded (history : List Input) :
    let r := init.run history
    r.1.Bounded ∧ (∀ i, r.1.Safe i) ∧ (∀ ms ∈ r.2, ms.Bounded) ∧
      ∀ delivered : List MotorStatusPayload, (∀ ms ∈ delivered, ms ∈ r.2) → ∀ kTickUs,
        let state := delivered.foldl StateService.onMotorStatus .init
        (-6000 ≤ (state.snapshot kTickUs).speedRpm ∧ (state.snapshot kTickUs).speedRpm ≤ 6000) ∧
          (state.state ≠ .executing → (state.snapshot kTickUs).speedRpm = 0) := by
  intro r
  obtain ⟨cmd, hexecutes, hremains, hstatuses⟩ := run_executes history
  have hbounded := hexecutes.bounded hremains
  exact ⟨hbounded, fun i => hbounded.safe i, hstatuses, fun delivered hsub kTickUs =>
    snapshot_bounded delivered (fun ms hms => hstatuses ms (hsub ms hms)) kTickUs⟩

end MotorService

end ReflectPytest
