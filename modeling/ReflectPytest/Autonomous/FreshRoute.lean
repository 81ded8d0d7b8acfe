import ReflectPytest.Autonomous.StopInForce

set_option autoImplicit false

/-! # What a command leaves of the route before

A command builds the whole mission anew; of the past it keeps `last_pos_m_` only, which is the
position of the last sample, whatever else arrived (`run_lastPosM`). So two services that have seen
the same last position cannot be told apart from the next command on (`command_forgets`). -/

namespace ReflectPytest

namespace AutonomousService

variable {F : Type} [FloatOps F]

/-! ## The remembered position -/

/-- The positions sampled. -/
def sampledPositions (inputs : List ((EnvPtr → EnvironmentPayload F) × Input F)) : List F :=
  inputs.filterMap fun
    | (_, .kinematicsData kin _) => some kin.positionM
    | _ => none

/-- A sample is remembered, and nothing else. -/
theorem step_lastPosM (deref : EnvPtr → EnvironmentPayload F) (s : AutonomousService F)
    (i : Input F) : (s.step deref i).1.lastPosM =
      (sampledPositions [(deref, i)]).getLast?.getD s.lastPosM := by
  cases i with
  | autoDriveCommand cmd => rfl
  | internalEnvData env => exact (onInternalEnvData_mission deref s env).lastPos
  | powerData power => rfl
  | physicsTick => rfl
  | kinematicsData kin replies =>
      show (s.onKinematicsData deref kin replies).1.lastPosM = kin.positionM
      unfold onKinematicsData
      split <;> rfl

/-- **Run lemma**: the service remembers the last position sampled. -/
theorem run_lastPosM (s : AutonomousService F)
    (inputs : List ((EnvPtr → EnvironmentPayload F) × Input F)) :
    (s.run inputs).1.lastPosM = (sampledPositions inputs).getLast?.getD s.lastPosM := by
  induction inputs using List.reverseRecOn with
  | nil => rfl
  | append_singleton inputs i ih =>
      have hsplit : sampledPositions (inputs ++ [i]) =
          sampledPositions inputs ++ sampledPositions [i] := List.filterMap_append
      rw [run_concat, hsplit, List.getLast?_append]
      refine (step_lastPosM i.1 _ i.2).trans ?_
      rw [ih]
      cases (sampledPositions [i]).getLast? <;> rfl

/-! ## Two services, one command -/

/-- The accepted state depends on the command and on the remembered position. -/
theorem acceptCommand_congr {s s' : AutonomousService F} (h : s.lastPosM = s'.lastPosM)
    (cmd : AutoDriveCommandPayload F) : s.acceptCommand cmd = s'.acceptCommand cmd := by
  unfold acceptCommand
  rw [h]

/-- **A new command forgets the old route**: after two histories with the same last position, a
    command and whatever follows it have the same effects, message by message, and leave the same
    state. -/
theorem command_forgets (history history' : List ((EnvPtr → EnvironmentPayload F) × Input F))
    (hlast : ((init : AutonomousService F).run history).1.lastPosM =
      ((init : AutonomousService F).run history').1.lastPosM)
    (deref : EnvPtr → EnvironmentPayload F) (cmd : AutoDriveCommandPayload F)
    (suffix : List ((EnvPtr → EnvironmentPayload F) × Input F)) :
    let r := ((init : AutonomousService F).run history).1.run
      ((deref, .autoDriveCommand cmd) :: suffix)
    let r' := ((init : AutonomousService F).run history').1.run
      ((deref, .autoDriveCommand cmd) :: suffix)
    messages r.2 = messages r'.2 ∧ r = r' := by
  intro r r'
  have haccepted := acceptCommand_congr hlast cmd
  have hr : r = r' := by
    simp only [r, r', run, step, onAutoDriveCommand, haccepted]
  exact ⟨congrArg (fun r => messages r.2) hr, hr⟩

/-! ## A preempted route -/

/-- A node 3 m ahead. -/
def aheadRoute : AutoDriveCommandPayload ℚ :=
  { (default : AutoDriveCommandPayload ℚ) with numNodes := 1, route := fun _ => ⟨⟨3, 0⟩, 5000⟩ }

/-- A route, energy and a sample on the way, and no route but the same sample. -/
def preempted : List ((EnvPtr → EnvironmentPayload ℚ) × Input ℚ) :=
  [(fun _ => default, .autoDriveCommand aheadRoute), (fun _ => default, .powerData ⟨0, 12, 1, 90⟩),
    (fun _ => default, .kinematicsData ⟨0, 0, 2, 0⟩ [])]

/-- The route is commanded again, and two samples follow, the second one at its end. -/
def restarted : List ((EnvPtr → EnvironmentPayload ℚ) × Input ℚ) :=
  [(fun _ => default, .autoDriveCommand aheadRoute), (fun _ => default, .physicsTick),
    (fun _ => default, .kinematicsData ⟨0, 0, 5 / 2, 0⟩ []),
    (fun _ => default, .kinematicsData ⟨0, 0, 3, 0⟩ [])]

/-- What follows the second command does not show which history came before it. -/
theorem preempted_forgotten :
    messages (((init : AutonomousService ℚ).run preempted).1.run restarted).2 =
      messages (((init : AutonomousService ℚ).run [(fun _ => default,
        .kinematicsData ⟨0, 0, 2, 0⟩ [])]).1.run restarted).2 := by
  refine (command_forgets preempted [_] ?_ _ aheadRoute _).1
  rw [run_lastPosM, run_lastPosM]
  rfl

end AutonomousService

end ReflectPytest
