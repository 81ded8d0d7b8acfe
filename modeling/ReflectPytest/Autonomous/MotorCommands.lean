import ReflectPytest.Services.Autonomous
import Mathlib.Data.List.Infix

set_option autoImplicit false

/-! # The motor commands of the waypoint controller

Every `MotorSequence` the service publishes is either computed for the node it is driving to or the
stop at the end of a route. `commandsOf` lists them for a run, each drive with the state it was
computed from, and `sequences_run` says that nothing else is published. -/

namespace ReflectPytest

variable {F : Type}

/-- The speed of the first step. -/
def MotorSequencePayload.speedRpm (seq : MotorSequencePayload) : Int :=
  ((seq.steps.get? 0).getD default).speedRpm

/-- The motor sequences among the effects. -/
def sequences (es : List (Effect F)) : List MotorSequencePayload :=
  (messages es).filterMap fun
    | .motorSequence seq => some seq
    | _ => none

@[simp] theorem sequences_nil : sequences ([] : List (Effect F)) = [] := rfl

@[simp] theorem sequences_append (es es' : List (Effect F)) :
    sequences (es ++ es') = sequences es ++ sequences es' := by
  simp [sequences]

namespace AutonomousService

variable [FloatOps F]

/-- A motor command: the drive computed in a state with the regions as they were, or the stop. -/
inductive Command (F : Type) where
  | drive (deref : EnvPtr → EnvironmentPayload F) (service : AutonomousService F)
  | stop

/-- The sequence that goes out. -/
def Command.sequence : Command F → MotorSequencePayload
  | .drive deref s => s.motorSequence deref
  | .stop => stopSequence

/-! ## Commands of one step -/

/-- The drive of an active route. -/
def driving (deref : EnvPtr → EnvironmentPayload F) (s : AutonomousService F) : List (Command F) :=
  if s.routeActive then [.drive deref s] else []

/-- The commands while replies to an environment request are handled. -/
def commandsOnReplies (deref : EnvPtr → EnvironmentPayload F) (s : AutonomousService F) :
    List InternalEnvDataPayload → List (Command F)
  | [] => []
  | env :: rest =>
      (s.onInternalEnvData deref env).1.driving deref ++
        (s.onInternalEnvData deref env).1.commandsOnReplies deref rest

/-- The commands of the replies to the environment request, if the sample makes one. -/
def commandsOnAnswer (deref : EnvPtr → EnvironmentPayload F) (s : AutonomousService F)
    (kin : KinematicsPayload F) (replies : List InternalEnvDataPayload) : List (Command F) :=
  if s.needsEnvironment deref kin.positionM then s.commandsOnReplies deref replies else []

/-- The command of a sample that reaches its node: on to the next one, or the stop. -/
def commandsOnCheck (deref : EnvPtr → EnvironmentPayload F) (s : AutonomousService F) (idx : Nat)
    (kin : KinematicsPayload F) : List (Command F) :=
  if reached (s.node idx).targetPos.x s.lastPosM kin.positionM then
    if (s.checkNode deref idx kin).1.routeActive then [.drive deref (s.checkNode deref idx kin).1]
    else [.stop]
  else []

/-- The commands of one delivered message. -/
def commands (deref : EnvPtr → EnvironmentPayload F) (s : AutonomousService F) :
    Input F → List (Command F)
  | .autoDriveCommand cmd => (s.acceptCommand cmd).driving deref
  | .internalEnvData env => (s.onInternalEnvData deref env).1.driving deref
  | .powerData _ => []
  | .kinematicsData kin replies =>
      if s.idle then []
      else s.commandsOnAnswer deref kin replies ++
        (s.answered deref kin replies).1.commandsOnCheck deref s.currentNodeIdx kin
  | .physicsTick => []

theorem sequences_driving (deref : EnvPtr → EnvironmentPayload F) (s : AutonomousService F) :
    sequences (if s.routeActive then s.publishMotorSequenceForCurrentNode deref else []) =
      (s.driving deref).map Command.sequence := by
  unfold driving
  split <;> rfl

omit [FloatOps F] in
theorem sequences_trackEnvironment (s : AutonomousService F) (regionId : Nat) :
    sequences (s.trackEnvironment regionId).2 = [] := by
  unfold trackEnvironment
  split_ifs <;> rfl

theorem sequences_onInternalEnvData (deref : EnvPtr → EnvironmentPayload F)
    (s : AutonomousService F) (env : InternalEnvDataPayload) :
    sequences (s.onInternalEnvData deref env).2 =
      ((s.onInternalEnvData deref env).1.driving deref).map Command.sequence := by
  simp only [onInternalEnvData, sequences_append, sequences_trackEnvironment, List.nil_append]
  exact sequences_driving deref _

theorem sequences_onReplies (deref : EnvPtr → EnvironmentPayload F) (s : AutonomousService F)
    (replies : List InternalEnvDataPayload) :
    sequences (s.onReplies deref replies).2 =
      (s.commandsOnReplies deref replies).map Command.sequence := by
  induction replies generalizing s with
  | nil => rfl
  | cons env rest ih =>
      simp only [onReplies, commandsOnReplies, sequences_append, List.map_append,
        sequences_onInternalEnvData, ih]

theorem sequences_answered (deref : EnvPtr → EnvironmentPayload F) (s : AutonomousService F)
    (kin : KinematicsPayload F) (replies : List InternalEnvDataPayload) :
    sequences (s.answered deref kin replies).2 =
      (s.commandsOnAnswer deref kin replies).map Command.sequence := by
  unfold answered commandsOnAnswer
  split_ifs
  · exact sequences_onReplies deref s replies
  · rfl

theorem sequences_requestEnvironment (deref : EnvPtr → EnvironmentPayload F)
    (s : AutonomousService F) (kin : KinematicsPayload F) :
    sequences (s.requestEnvironment deref kin) = [] := by
  unfold requestEnvironment
  split_ifs <;> rfl

theorem sequences_recordStats (s : AutonomousService F) (positionM : F) :
    sequences (s.recordStats positionM).2 = [] := by
  unfold recordStats
  dsimp only
  split_ifs <;> rfl

theorem recordStats_active (s : AutonomousService F) (positionM : F) :
    (s.recordStats positionM).1.routeActive = s.routeActive := by
  unfold recordStats
  dsimp only
  split_ifs <;> rfl

/-- Ending a route is what switches it off. -/
theorem sequences_advanceNode (deref : EnvPtr → EnvironmentPayload F) {s : AutonomousService F}
    (hs : s.routeActive = true) :
    sequences (s.advanceNode deref).2 =
      [(if (s.advanceNode deref).1.routeActive then Command.drive deref (s.advanceNode deref).1
        else .stop).sequence] := by
  by_cases hdone : s.cmd.numNodes ≤ (s.currentNodeIdx + 1) % 2 ^ 8
  · simp only [advanceNode, hdone, if_true, Bool.false_eq_true, if_false]
    rfl
  · simp only [advanceNode, hdone, if_false, hs, if_true]
    rfl

theorem sequences_checkNode (deref : EnvPtr → EnvironmentPayload F) {s : AutonomousService F}
    (hs : s.routeActive = true) (idx : Nat) (kin : KinematicsPayload F) :
    sequences (s.checkNode deref idx kin).2 =
      (s.commandsOnCheck deref idx kin).map Command.sequence := by
  have hrecord := (s.recordStats_active kin.positionM).trans hs
  unfold commandsOnCheck checkNode
  split
  · dsimp only
    rw [sequences_append, sequences_recordStats, List.nil_append,
      sequences_advanceNode deref hrecord]
    split <;> rfl
  · rfl

/-- **Step lemma**: a step publishes the sequences of its commands. -/
theorem sequences_step (deref : EnvPtr → EnvironmentPayload F) (s : AutonomousService F)
    (i : Input F) :
    sequences (s.step deref i).2 = (s.commands deref i).map Command.sequence := by
  cases i with
  | autoDriveCommand cmd => exact sequences_driving deref _
  | internalEnvData env => exact sequences_onInternalEnvData deref s env
  | powerData power => rfl
  | physicsTick =>
      simp only [step, onPhysicsTick]
      split <;> rfl
  | kinematicsData kin replies =>
      cases hidle : s.idle with
      | true => simp [step, commands, onKinematicsData, hidle]
      | false =>
          have hactive : (s.answered deref kin replies).1.routeActive = true :=
            (answered_mission deref s kin replies).active.trans (idle_eq_false.1 hidle).1
          simp only [step, commands, hidle, Bool.false_eq_true, if_false, List.map_append,
            onKinematicsData_eq deref s kin replies hidle, sequences_append,
            sequences_requestEnvironment, List.nil_append, sequences_answered,
            sequences_checkNode deref hactive]

/-! ## Commands of a run -/

/-- The commands of a sequence of messages. -/
def commandsOf (s : AutonomousService F) :
    List ((EnvPtr → EnvironmentPayload F) × Input F) → List (Command F)
  | [] => []
  | (deref, i) :: rest => s.commands deref i ++ (s.step deref i).1.commandsOf rest

/-- **Run lemma**: a run publishes the sequences of its commands. -/
theorem sequences_run (s : AutonomousService F)
    (inputs : List ((EnvPtr → EnvironmentPayload F) × Input F)) :
    sequences (s.run inputs).2 = (s.commandsOf inputs).map Command.sequence := by
  induction inputs generalizing s with
  | nil => rfl
  | cons input rest ih =>
      obtain ⟨deref, i⟩ := input
      simp only [run, commandsOf, sequences_append, List.map_append, sequences_step, ih]

theorem run_append (s : AutonomousService F)
    (inputs inputs' : List ((EnvPtr → EnvironmentPayload F) × Input F)) :
    s.run (inputs ++ inputs') =
      (((s.run inputs).1.run inputs').1, (s.run inputs).2 ++ ((s.run inputs).1.run inputs').2) := by
  induction inputs generalizing s with
  | nil => rfl
  | cons input rest ih =>
      obtain ⟨deref, i⟩ := input
      simp only [List.cons_append, run, ih, List.append_assoc]

end AutonomousService

end ReflectPytest
