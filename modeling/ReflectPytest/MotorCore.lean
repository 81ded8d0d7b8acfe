import ReflectPytest.App

set_option autoImplicit false

/-! # Code that leaves the motor alone

The motor, the lifecycle and the vehicle's motion are touched by a handful of handlers only: those
of `MotorService`, and the handlers of ticks and statuses in `KinematicsService` and `StateService`.
All other code is inert. -/

namespace ReflectPytest

open SyncBus

variable {F : Type} [FloatOps F]

namespace App

/-- `StateService` knows the present state of the motor. -/
def Matches (w : World F) : Prop :=
  w.state = ⟨StateService.stateFor w.motor.active, w.motor.status.cmdId, w.motor.status.speedRpm,
    w.motor.active⟩

omit [FloatOps F] in
theorem Matches.congr {w w' : World F} (h : Matches w) (hmotor : w'.motor = w.motor)
    (hstate : w'.state = w.state) : Matches w' := by
  unfold Matches
  rw [hmotor, hstate]
  exact h

/-- Two worlds with the same motor, lifecycle, motion, clock and history. -/
structure SameCore (w w' : World F) : Prop where
  motor : w'.motor = w.motor
  state : w'.state = w.state
  kinematics : w'.kinematics = w.kinematics
  clockTick : w'.clockTick = w.clockTick
  history : w'.history = w.history

/-- Code that leaves them alone and publishes neither statuses nor ticks. -/
structure Inert (code : Code (World F) (Msg F)) : Prop where
  emits : code.Emits fun m => m.id ≠ .motorStatus ∧ m.id ≠ .physicsTick
  grows : code.Grows SameCore

omit [FloatOps F] in
theorem inert_done : Inert (.done : Code (World F) (Msg F)) := ⟨trivial, trivial⟩

/-- The handlers outside `MotorService` that do touch them. -/
def touchesCore : Service → MsgId → Bool
  | .kinematics, .physicsTick => true
  | .kinematics, .motorStatus => true
  | .state, .motorStatus => true
  | .motor, _ => true
  | _, _ => false

theorem code_grows_sameCore (pf : Platform F) {h : Service} {m : Msg F}
    (hh : touchesCore h m.id = false) : (code pf h m).Grows SameCore := by
  cases h <;> cases m <;> simp only [touchesCore, Msg.id, Bool.true_eq_false] at hh <;>
    simp only [code, update, Code.grows_done, Code.grows_single] <;>
    try exact fun w => ⟨rfl, rfl, rfl, rfl, rfl⟩
  case environment.internalEnvRequest req =>
      refine ⟨fun w => ⟨rfl, rfl, rfl, rfl, rfl⟩, fun w => ?_⟩
      dsimp only
      split
      · exact (Code.grows_single _ _).2 fun w => ⟨rfl, rfl, rfl, rfl, rfl⟩
      · trivial
  case autonomous.kinematicsData kin =>
      refine ⟨fun w => ?_, fun w => ?_⟩
      · unfold requestStretch
        split <;> exact ⟨rfl, rfl, rfl, rfl, rfl⟩
      · dsimp only
        split
        · trivial
        · exact ⟨fun w => ⟨rfl, rfl, rfl, rfl, rfl⟩,
            fun _ => (Code.grows_single _ _).2 fun w => ⟨rfl, rfl, rfl, rfl, rfl⟩⟩

theorem answers_quiet {h : Service} (hh : h ≠ .motor) (id : MsgId) :
    ∀ id' ∈ h.answers id, id' ≠ .motorStatus ∧ id' ≠ .physicsTick := by
  cases h <;> first | exact absurd rfl hh | cases id <;> decide

theorem code_inert (pf : Platform F) {h : Service} {m : Msg F}
    (hh : touchesCore h m.id = false) : Inert (code pf h m) := by
  have hmotor : h ≠ .motor := by
    rintro rfl
    simp [touchesCore] at hh
  exact ⟨(code_emits pf h m).mono (fun _ => answers_quiet hmotor m.id _), code_grows_sameCore pf hh⟩

end App

end ReflectPytest
