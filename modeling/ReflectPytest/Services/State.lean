import ReflectPytest.Messages

set_option autoImplicit false

/-! # StateService

The lifecycle state machine and the clock. `clock_loop` takes a snapshot of the cached motor state
under `mu_` and publishes it as a `PhysicsTick` after releasing it. -/

namespace ReflectPytest

structure StateService where
  state : SystemState
  lastCmdId : Nat
  lastRpm : Int
  lastActive : Bool

namespace StateService

/-- The state of a freshly constructed service. -/
def init : StateService := ⟨.ready, 0, 0, false⟩

/-- The lifecycle state a `MotorStatus` asks for. -/
def stateFor (isActive : Bool) : SystemState := if isActive then .executing else .ready

/-- `on_message(StateRequestPayload)`: the reply. -/
def onStateRequest (s : StateService) : StatePayload := ⟨s.state⟩

/-- `on_message(MotorStatusPayload)`. -/
def onMotorStatus (s : StateService) (ms : MotorStatusPayload) : StateService :=
  let nextState := stateFor ms.isActive
  { s with
    lastCmdId := ms.cmdId
    lastRpm := ms.speedRpm
    lastActive := ms.isActive
    state := if nextState ≠ s.state then nextState else s.state }

/-- The critical section of one `clock_loop` iteration: the tick to publish. The speed is only
    reported while executing. -/
def snapshot (s : StateService) (kTickUs : Nat) : PhysicsTickPayload :=
  ⟨s.lastCmdId, if s.state ≠ .executing then 0 else s.lastRpm, kTickUs⟩

theorem onMotorStatus_eq (s : StateService) (ms : MotorStatusPayload) :
    s.onMotorStatus ms = ⟨stateFor ms.isActive, ms.cmdId, ms.speedRpm, ms.isActive⟩ := by
  unfold onMotorStatus
  dsimp only
  split
  · rfl
  · next h => rw [not_not.1 h]

theorem stateFor_eq_executing {b : Bool} : stateFor b = .executing ↔ b = true := by
  cases b <;> simp [stateFor]

end StateService

end ReflectPytest
