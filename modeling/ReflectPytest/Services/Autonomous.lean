import ReflectPytest.Messages

set_option autoImplicit false

/-! # AutonomousService

The waypoint controller. Its handlers run under a recursive `mu_` and publish from inside it, so
each is cut at its publishes: the functions below are the stretches of code between them. They
return the effects of the stretch in program order, array accesses included, since two of the array
indices come from a datagram. The region behind `current_env_ptr_` is shared with
`EnvironmentService`; `deref` reads it as it is at the moment. -/

namespace ReflectPytest

open FloatOps

/-- An access to one of the three fixed-size arrays of the service. -/
inductive ArrayAccess where
  | route (i : Nat)
  | nodeStats (i : Nat)
  | environmentIds (i : Nat)
  deriving DecidableEq

/-- The index is below the extent of the array. -/
def ArrayAccess.InBounds : ArrayAccess → Prop
  | .route i => i < 8
  | .nodeStats i => i < 8
  | .environmentIds i => i < 4

instance : DecidablePred ArrayAccess.InBounds := fun a => by
  cases a <;> exact inferInstanceAs (Decidable (_ < _))

inductive Effect (F : Type) where
  | access (a : ArrayAccess)
  | publish (m : Msg F)
  deriving DecidableEq

/-- The message of a publish. -/
def Effect.message? {F : Type} : Effect F → Option (Msg F)
  | .access _ => none
  | .publish m => some m

/-- The messages a stretch of code publishes, in order. -/
def messages {F : Type} (es : List (Effect F)) : List (Msg F) := es.filterMap Effect.message?

@[simp] theorem messages_nil {F : Type} : messages ([] : List (Effect F)) = [] := rfl

@[simp] theorem messages_access {F : Type} (a : ArrayAccess) (es : List (Effect F)) :
    messages (.access a :: es) = messages es := rfl

@[simp] theorem messages_publish {F : Type} (m : Msg F) (es : List (Effect F)) :
    messages (.publish m :: es) = m :: messages es := rfl

@[simp] theorem messages_append {F : Type} (es es' : List (Effect F)) :
    messages (es ++ es') = messages es ++ messages es' := List.filterMap_append

structure AutonomousService (F : Type) where
  cmd : AutoDriveCommandPayload F
  currentNodeIdx : Nat
  routeActive : Bool
  currentEnvPtr : Option EnvPtr
  status : AutoDriveStatusPayload F
  currentTotalEnergyJ : F
  nodeStartEnergyJ : F
  nodeStartPosM : F
  lastPosM : F
  usedEnvs : List Nat

namespace AutonomousService

variable {F : Type} [FloatOps F]

/-- The state of a freshly constructed service. -/
def init : AutonomousService F := ⟨default, 0, false, none, default, 0, 0, 0, 0, []⟩

/-! ## Motor commands -/

/-- `cmd_.route[idx]`; out of bounds its value is unspecified. -/
def node (s : AutonomousService F) (idx : Nat) : ManeuverNode F :=
  (s.cmd.route.get? idx).getD default

/-- `target_speed`: the region's limit, scaled by the drive mode and halved on steep inclines. -/
def targetSpeed (deref : EnvPtr → EnvironmentPayload F) (s : AutonomousService F) : F :=
  let base := match s.currentEnvPtr with
    | some p => (deref p).maxSpeedRpm
    | none => lit 1000
  let scaled := match s.cmd.mode with
    | .eco => base * lit (75 / 100)
    | .performance => base * lit (110 / 100)
    | .manualTuning => base * s.cmd.pGain
    | .unnamed _ => base
  match s.cmd.useEnvironmentTuning, s.currentEnvPtr with
  | true, some p =>
      if lt (lit 5) (FloatOps.abs (deref p).inclinePercent) then scaled / lit 2 else scaled
  | _, _ => scaled

/-- The `MotorSequence` that drives toward the current node. -/
def motorSequence (deref : EnvPtr → EnvironmentPayload F) (s : AutonomousService F) :
    MotorSequencePayload :=
  { cmdId := 999
    numSteps := 1
    steps := StdArray.set (fun _ => default) 0
      ⟨toInt16 (s.targetSpeed deref), (s.node s.currentNodeIdx).timeoutMs * 1000 % 2 ^ 32⟩ }

/-- The `MotorSequence` that stops the motor at the end of a route. -/
def stopSequence : MotorSequencePayload :=
  { cmdId := 0
    numSteps := 1
    steps := StdArray.set (fun _ => default) 0 ⟨0, 0⟩ }

/-- `publish_motor_sequence_for_current_node`. -/
def publishMotorSequenceForCurrentNode (deref : EnvPtr → EnvironmentPayload F)
    (s : AutonomousService F) : List (Effect F) :=
  [.access (.route s.currentNodeIdx), .publish (.motorSequence (s.motorSequence deref))]

/-! ## on_message(AutoDriveCommandPayload) -/

/-- The mission state a command leaves. -/
def acceptCommand (s : AutonomousService F) (cmd : AutoDriveCommandPayload F) :
    AutonomousService F :=
  { cmd := cmd
    currentNodeIdx := 0
    routeActive := decide (0 < cmd.numNodes)
    currentEnvPtr := none
    status := { (default : AutoDriveStatusPayload F) with cmdId := 1234 }
    currentTotalEnergyJ := 0
    nodeStartEnergyJ := 0
    nodeStartPosM := s.lastPosM
    lastPosM := s.lastPosM
    usedEnvs := [] }

def onAutoDriveCommand (deref : EnvPtr → EnvironmentPayload F) (s : AutonomousService F)
    (cmd : AutoDriveCommandPayload F) : AutonomousService F × List (Effect F) :=
  let s := s.acceptCommand cmd
  (s, if s.routeActive then s.publishMotorSequenceForCurrentNode deref else [])

/-! ## on_message(InternalEnvDataPayload) -/

/-- Remember the region for telemetry, while there is room for it. -/
def trackEnvironment (s : AutonomousService F) (regionId : Nat) :
    AutonomousService F × List (Effect F) :=
  if s.usedEnvs.contains regionId then (s, [])
  else if s.usedEnvs.length < 4 then
    let k := s.status.numEnvironmentsUsed
    ({ s with
        usedEnvs := s.usedEnvs ++ [regionId]
        status := { s.status with
          numEnvironmentsUsed := (k + 1) % 2 ^ 8
          environmentIds := s.status.environmentIds.set k regionId } },
      [.access (.environmentIds k)])
  else (s, [])

def onInternalEnvData (deref : EnvPtr → EnvironmentPayload F) (s : AutonomousService F)
    (env : InternalEnvDataPayload) : AutonomousService F × List (Effect F) :=
  let (s, es) := { s with currentEnvPtr := some env.ptr }.trackEnvironment (deref env.ptr).regionId
  (s, es ++ if s.routeActive then s.publishMotorSequenceForCurrentNode deref else [])

/-! ## on_message(PowerPayload) -/

/-- The energy a power sample adds: its wattage over a fixed 10 ms. -/
def sampleEnergyJ (power : PowerPayload F) : F := power.voltageV * power.currentA * lit (1 / 100)

def onPowerData (s : AutonomousService F) (power : PowerPayload F) : AutonomousService F :=
  { s with currentTotalEnergyJ := s.currentTotalEnergyJ + sampleEnergyJ power }

/-! ## on_message(KinematicsPayload) -/

/-- The early return: there is no current node. -/
def idle (s : AutonomousService F) : Bool :=
  !s.routeActive || decide (s.cmd.numNodes ≤ s.currentNodeIdx)

/-- The position is not covered by the region in use. -/
def outsideEnvironment (deref : EnvPtr → EnvironmentPayload F) (s : AutonomousService F)
    (positionM : F) : Bool :=
  match s.currentEnvPtr with
  | none => true
  | some p => lt positionM (deref p).bounds.minPt.x || lt (deref p).bounds.maxPt.x positionM

/-- An environment request goes out for this sample. -/
def needsEnvironment (deref : EnvPtr → EnvironmentPayload F) (s : AutonomousService F)
    (positionM : F) : Bool :=
  s.cmd.useEnvironmentTuning && s.outsideEnvironment deref positionM

/-- First stretch: bind the node and ask for environment data. -/
def requestEnvironment (deref : EnvPtr → EnvironmentPayload F) (s : AutonomousService F)
    (kin : KinematicsPayload F) : List (Effect F) :=
  .access (.route s.currentNodeIdx) ::
    if s.needsEnvironment deref kin.positionM then
      [.publish (.internalEnvRequest ⟨kin.positionM, 0⟩)]
    else []

/-- A sample within 0.1 m of the target, or on the other side of it than the previous one. -/
def reached (target lastPosM positionM : F) : Bool :=
  lt (FloatOps.abs (target - positionM)) (lit (1 / 10)) ||
    le ((target - lastPosM) * (target - positionM)) 0

/-- The statistics recorded when a node is reached at `positionM`. -/
def legStats (s : AutonomousService F) (positionM : F) : ManeuverStats F :=
  let initialEnergyMj := s.nodeStartEnergyJ * lit 1000
  let finalEnergyMj := s.currentTotalEnergyJ * lit 1000
  let totalEnergyUsedMj := finalEnergyMj - initialEnergyMj
  let moved := FloatOps.abs (positionM - s.nodeStartPosM)
  { initialEnergyMj := initialEnergyMj
    finalEnergyMj := finalEnergyMj
    energyPerMeterMj := if lt (lit (1 / 100)) moved then totalEnergyUsedMj / moved else lit 0
    totalEnergyUsedMj := totalEnergyUsedMj }

/-- Phase 3: record the statistics, while there is room for them. -/
def recordStats (s : AutonomousService F) (positionM : F) : AutonomousService F × List (Effect F) :=
  let k := s.status.numStats
  if k < 8 then
    ({ s with status := { s.status with
        numStats := (k + 1) % 2 ^ 8
        nodeStats := s.status.nodeStats.set k (s.legStats positionM) } },
      [.access (.nodeStats k)])
  else (s, [])

/-- Step to the next node, or end the route: the final status goes out before the stop. -/
def advanceNode (deref : EnvPtr → EnvironmentPayload F) (s : AutonomousService F) :
    AutonomousService F × List (Effect F) :=
  let idx := (s.currentNodeIdx + 1) % 2 ^ 8
  let s := { s with currentNodeIdx := idx, status := { s.status with currentNodeIdx := idx } }
  if s.cmd.numNodes ≤ idx then
    let s := { s with routeActive := false, status := { s.status with routeComplete := true } }
    (s, [.publish (.autoDriveStatus s.status), .publish (.motorSequence stopSequence)])
  else (s, s.publishMotorSequenceForCurrentNode deref)

/-- Second stretch, for the node bound by the first: check whether it is reached. -/
def checkNode (deref : EnvPtr → EnvironmentPayload F) (s : AutonomousService F) (idx : Nat)
    (kin : KinematicsPayload F) : AutonomousService F × List (Effect F) :=
  if reached (s.node idx).targetPos.x s.lastPosM kin.positionM then
    let (s, es) := s.recordStats kin.positionM
    let (s, es') := s.advanceNode deref
    (s, es ++ es')
  else (s, [])

/-- Last stretch: remember the position. -/
def rememberPosition (s : AutonomousService F) (kin : KinematicsPayload F) : AutonomousService F :=
  { s with lastPosM := kin.positionM }

/-! ## on_message(PhysicsTickPayload) -/

/-- The polls of one tick. -/
def onPhysicsTick (s : AutonomousService F) : List (Effect F) :=
  if s.routeActive then [.publish .kinematicsRequest, .publish .powerRequest] else []

/-! ## The service on its own

A run of the service as an open component: `InternalEnvData` may also arrive in the middle of a
`KinematicsData`, while its environment request is being answered. -/

/-- A message delivered to the service; `replies` are the `InternalEnvData` delivered while the
    environment request of this sample, if it makes one, is being handled. -/
inductive Input (F : Type) where
  | autoDriveCommand (cmd : AutoDriveCommandPayload F)
  | internalEnvData (env : InternalEnvDataPayload)
  | powerData (power : PowerPayload F)
  | kinematicsData (kin : KinematicsPayload F) (replies : List InternalEnvDataPayload)
  | physicsTick

/-- Handle a list of `InternalEnvData`, one after another. -/
def onReplies (deref : EnvPtr → EnvironmentPayload F) (s : AutonomousService F) :
    List InternalEnvDataPayload → AutonomousService F × List (Effect F)
  | [] => (s, [])
  | env :: rest =>
      let (s, es) := s.onInternalEnvData deref env
      let (s, es') := s.onReplies deref rest
      (s, es ++ es')

/-- What the replies to the environment request leave, if the sample makes one. -/
def answered (deref : EnvPtr → EnvironmentPayload F) (s : AutonomousService F)
    (kin : KinematicsPayload F) (replies : List InternalEnvDataPayload) :
    AutonomousService F × List (Effect F) :=
  if s.needsEnvironment deref kin.positionM then s.onReplies deref replies else (s, [])

/-- `on_message(KinematicsPayload)` with the given replies to its environment request. -/
def onKinematicsData (deref : EnvPtr → EnvironmentPayload F) (s : AutonomousService F)
    (kin : KinematicsPayload F) (replies : List InternalEnvDataPayload) :
    AutonomousService F × List (Effect F) :=
  if s.idle then (s.rememberPosition kin, [])
  else
    let idx := s.currentNodeIdx
    let es := s.requestEnvironment deref kin
    let (s, es') := s.answered deref kin replies
    let (s, es'') := s.checkNode deref idx kin
    (s.rememberPosition kin, es ++ es' ++ es'')

/-- Deliver one message. -/
def step (deref : EnvPtr → EnvironmentPayload F) (s : AutonomousService F) :
    Input F → AutonomousService F × List (Effect F)
  | .autoDriveCommand cmd => s.onAutoDriveCommand deref cmd
  | .internalEnvData env => s.onInternalEnvData deref env
  | .powerData power => (s.onPowerData power, [])
  | .kinematicsData kin replies => s.onKinematicsData deref kin replies
  | .physicsTick => (s, s.onPhysicsTick)

/-- Deliver a sequence of messages, each with the regions as they are at the time. -/
def run (s : AutonomousService F) :
    List ((EnvPtr → EnvironmentPayload F) × Input F) → AutonomousService F × List (Effect F)
  | [] => (s, [])
  | (deref, i) :: rest =>
      let (s, es) := s.step deref i
      let (s, es') := s.run rest
      (s, es ++ es')

/-! ## What environment data leaves alone -/

/-- Two states of one mission: they differ in what the service knows about regions only. -/
structure SameMission (s s' : AutonomousService F) : Prop where
  cmd : s'.cmd = s.cmd
  node : s'.currentNodeIdx = s.currentNodeIdx
  active : s'.routeActive = s.routeActive
  lastPos : s'.lastPosM = s.lastPosM
  energy : s'.currentTotalEnergyJ = s.currentTotalEnergyJ
  startEnergy : s'.nodeStartEnergyJ = s.nodeStartEnergyJ
  startPos : s'.nodeStartPosM = s.nodeStartPosM
  numStats : s'.status.numStats = s.status.numStats
  nodeStats : s'.status.nodeStats = s.status.nodeStats

omit [FloatOps F] in
theorem SameMission.refl (s : AutonomousService F) : s.SameMission s :=
  ⟨rfl, rfl, rfl, rfl, rfl, rfl, rfl, rfl, rfl⟩

omit [FloatOps F] in
theorem SameMission.trans {s s' s'' : AutonomousService F} (h : s.SameMission s')
    (h' : s'.SameMission s'') : s.SameMission s'' :=
  ⟨h'.cmd.trans h.cmd, h'.node.trans h.node, h'.active.trans h.active, h'.lastPos.trans h.lastPos,
    h'.energy.trans h.energy, h'.startEnergy.trans h.startEnergy, h'.startPos.trans h.startPos,
    h'.numStats.trans h.numStats, h'.nodeStats.trans h.nodeStats⟩

omit [FloatOps F] in
theorem trackEnvironment_mission (s : AutonomousService F) (regionId : Nat) :
    s.SameMission (s.trackEnvironment regionId).1 := by
  unfold trackEnvironment
  split_ifs <;> exact ⟨rfl, rfl, rfl, rfl, rfl, rfl, rfl, rfl, rfl⟩

theorem onInternalEnvData_mission (deref : EnvPtr → EnvironmentPayload F) (s : AutonomousService F)
    (env : InternalEnvDataPayload) : s.SameMission (s.onInternalEnvData deref env).1 := by
  have hptr : s.SameMission { s with currentEnvPtr := some env.ptr } :=
    ⟨rfl, rfl, rfl, rfl, rfl, rfl, rfl, rfl, rfl⟩
  exact hptr.trans (trackEnvironment_mission _ _)

theorem onReplies_mission (deref : EnvPtr → EnvironmentPayload F) (s : AutonomousService F)
    (replies : List InternalEnvDataPayload) : s.SameMission (s.onReplies deref replies).1 := by
  induction replies generalizing s with
  | nil => exact SameMission.refl s
  | cons env rest ih => exact (onInternalEnvData_mission deref s env).trans (ih _)

theorem answered_mission (deref : EnvPtr → EnvironmentPayload F) (s : AutonomousService F)
    (kin : KinematicsPayload F) (replies : List InternalEnvDataPayload) :
    s.SameMission (s.answered deref kin replies).1 := by
  unfold answered
  split_ifs
  · exact onReplies_mission deref s replies
  · exact SameMission.refl s

omit [FloatOps F] in
theorem idle_eq_false {s : AutonomousService F} :
    s.idle = false ↔ s.routeActive = true ∧ s.currentNodeIdx < s.cmd.numNodes := by
  simp [idle]

theorem onKinematicsData_eq (deref : EnvPtr → EnvironmentPayload F) (s : AutonomousService F)
    (kin : KinematicsPayload F) (replies : List InternalEnvDataPayload) (h : s.idle = false) :
    s.onKinematicsData deref kin replies =
      ((((s.answered deref kin replies).1.checkNode deref s.currentNodeIdx kin).1).rememberPosition
          kin,
        s.requestEnvironment deref kin ++ (s.answered deref kin replies).2 ++
          ((s.answered deref kin replies).1.checkNode deref s.currentNodeIdx kin).2) := by
  simp only [onKinematicsData, h, Bool.false_eq_true, if_false]

section CheckNode

variable {s : AutonomousService F} {idx : Nat} {kin : KinematicsPayload F}

/-- A sample that does not reach the node changes nothing. -/
theorem checkNode_miss (deref : EnvPtr → EnvironmentPayload F)
    (h : reached (s.node idx).targetPos.x s.lastPosM kin.positionM = false) :
    s.checkNode deref idx kin = (s, []) := by
  simp only [checkNode, h, Bool.false_eq_true, if_false]

/-- A sample that reaches it records the leg and moves on. -/
theorem checkNode_hit (deref : EnvPtr → EnvironmentPayload F)
    (h : reached (s.node idx).targetPos.x s.lastPosM kin.positionM = true) :
    s.checkNode deref idx kin =
      (((s.recordStats kin.positionM).1.advanceNode deref).1,
        (s.recordStats kin.positionM).2 ++
          ((s.recordStats kin.positionM).1.advanceNode deref).2) := by
  simp only [checkNode, h, if_true]

end CheckNode

/-! ## The region in use -/

theorem onInternalEnvData_currentEnvPtr (deref : EnvPtr → EnvironmentPayload F)
    (s : AutonomousService F) (env : InternalEnvDataPayload) :
    (s.onInternalEnvData deref env).1.currentEnvPtr = some env.ptr := by
  unfold onInternalEnvData trackEnvironment
  dsimp only
  split_ifs <;> rfl

/-- The check of a node keeps the region. -/
theorem checkNode_currentEnvPtr (deref : EnvPtr → EnvironmentPayload F) (s : AutonomousService F)
    (idx : Nat) (kin : KinematicsPayload F) :
    (s.checkNode deref idx kin).1.currentEnvPtr = s.currentEnvPtr := by
  unfold checkNode recordStats advanceNode
  dsimp only
  split_ifs <;> rfl

end AutonomousService

end ReflectPytest
