import ReflectPytest.FloatOps
import Mathlib.Data.Fintype.Defs
import Mathlib.Data.Fintype.Basic

set_option autoImplicit false

/-! # Messages of the bus

The payload structs of `messages/*.h` and the message identifiers. An array `std::array<T, n>` is a
function on `Fin n`; indexing it with a machine integer goes through `StdArray.get?`, which is
`none` out of bounds. `Log` payloads, `route_name`, `route_transform` and the request sentinels'
reserved byte are read by no handler below and are left out. -/

namespace ReflectPytest

/-! ## Arrays -/

/-- `std::array<α, n>`. -/
abbrev StdArray (α : Type) (n : Nat) : Type := Fin n → α

namespace StdArray

variable {α : Type} {n : Nat}

/-- `a[i]`, when `i` is in bounds. -/
def get? (a : StdArray α n) (i : Nat) : Option α := if h : i < n then some (a ⟨i, h⟩) else none

/-- `a[i] = x`, when `i` is in bounds. -/
def set (a : StdArray α n) (i : Nat) (x : α) : StdArray α n :=
  fun j => if j.val = i then x else a j

theorem get?_of_lt (a : StdArray α n) {i : Nat} (h : i < n) : a.get? i = some (a ⟨i, h⟩) :=
  dif_pos h

theorem get?_set_self (a : StdArray α n) {i : Nat} (h : i < n) (x : α) :
    (a.set i x).get? i = some x := by
  simp [get?, set, h]

theorem get?_set_ne (a : StdArray α n) {i j : Nat} (h : j ≠ i) (x : α) :
    (a.set i x).get? j = a.get? j := by
  simp [get?, set, h]

end StdArray

/-! ## Core and simulation payloads -/

inductive SystemState where
  | init | ready | executing | stopping | fault
  deriving DecidableEq, Repr

structure StatePayload where
  state : SystemState
  deriving DecidableEq

structure PhysicsTickPayload where
  cmdId : Nat
  speedRpm : Int
  dtUs : Nat
  deriving DecidableEq

structure MotorSubCmd where
  speedRpm : Int
  durationUs : Nat
  deriving DecidableEq

instance : Inhabited MotorSubCmd := ⟨⟨0, 0⟩⟩

abbrev kMaxSubCmds : Nat := 5

structure MotorSequencePayload where
  cmdId : Nat
  numSteps : Nat
  steps : StdArray MotorSubCmd kMaxSubCmds
  deriving DecidableEq

instance : Inhabited MotorSequencePayload := ⟨⟨0, 0, fun _ => default⟩⟩

structure KinematicsPayload (F : Type) where
  cmdId : Nat
  elapsedUs : Nat
  positionM : F
  speedMps : F
  deriving DecidableEq

structure PowerPayload (F : Type) where
  cmdId : Nat
  voltageV : F
  currentA : F
  stateOfCharge : Int
  deriving DecidableEq

structure ThermalPayload (F : Type) where
  motorTempC : F
  batteryTempC : F
  deriving DecidableEq

structure MotorStatusPayload where
  cmdId : Nat
  speedRpm : Int
  isActive : Bool
  deriving DecidableEq

/-! ## Autonomous and environment payloads -/

structure Point2D (F : Type) where
  x : F
  y : F
  deriving DecidableEq

structure BoundingBox2D (F : Type) where
  minPt : Point2D F
  maxPt : Point2D F
  deriving DecidableEq

structure EnvironmentRequestPayload (F : Type) where
  targetLocation : Point2D F
  deriving DecidableEq

structure EnvironmentAckPayload where
  regionId : Nat
  deriving DecidableEq

structure EnvironmentPayload (F : Type) where
  regionId : Nat
  bounds : BoundingBox2D F
  ambientTempC : F
  inclinePercent : F
  surfaceFriction : F
  maxSpeedRpm : F
  deriving DecidableEq

/-- `DriveMode` has a fixed underlying type, so a datagram can carry a value none of the enumerators
    names. -/
inductive DriveMode where
  | eco | performance | manualTuning
  | unnamed (raw : Nat)
  deriving DecidableEq, Repr

structure ManeuverNode (F : Type) where
  targetPos : Point2D F
  timeoutMs : Nat
  deriving DecidableEq

structure AutoDriveCommandPayload (F : Type) where
  mode : DriveMode
  pGain : F
  useEnvironmentTuning : Bool
  numNodes : Nat
  route : StdArray (ManeuverNode F) 8
  deriving DecidableEq

structure ManeuverStats (F : Type) where
  initialEnergyMj : F
  finalEnergyMj : F
  energyPerMeterMj : F
  totalEnergyUsedMj : F
  deriving DecidableEq

structure AutoDriveStatusPayload (F : Type) where
  cmdId : Nat
  currentNodeIdx : Nat
  routeComplete : Bool
  numStats : Nat
  nodeStats : StdArray (ManeuverStats F) 8
  numEnvironmentsUsed : Nat
  environmentIds : StdArray Nat 4
  deriving DecidableEq

structure InternalEnvRequestPayload (F : Type) where
  x : F
  y : F
  deriving DecidableEq

/-- A `shared_ptr` to a cached region: the position of the region in the cache that allocated it.
    Regions are never freed, only overwritten in place. -/
abbrev EnvPtr : Type := Nat

structure InternalEnvDataPayload where
  ptr : EnvPtr
  deriving DecidableEq

section Zero

variable {F : Type} [Zero F]

instance : Inhabited (Point2D F) := ⟨⟨0, 0⟩⟩
instance : Inhabited (BoundingBox2D F) := ⟨⟨default, default⟩⟩
instance : Inhabited (EnvironmentPayload F) := ⟨⟨0, default, 0, 0, 0, 0⟩⟩
instance : Inhabited (ManeuverNode F) := ⟨⟨default, 0⟩⟩
instance : Inhabited (AutoDriveCommandPayload F) := ⟨⟨.eco, 0, false, 0, fun _ => default⟩⟩
instance : Inhabited (ManeuverStats F) := ⟨⟨0, 0, 0, 0⟩⟩
instance : Inhabited (AutoDriveStatusPayload F) :=
  ⟨⟨0, 0, false, 0, fun _ => default, 0, fun _ => 0⟩⟩

end Zero

/-! ## Message identifiers -/

inductive MsgId where
  | log | physicsTick | stateRequest | stateData
  | motorSequence | motorStatus | kinematicsRequest | kinematicsData
  | powerRequest | powerData | thermalRequest | thermalData
  | environmentAck | environmentRequest | environmentData
  | autoDriveCommand | autoDriveStatus
  | internalEnvRequest | internalEnvData
  deriving DecidableEq, Repr

/-- A message: its identifier together with the payload `MessageTraits` gives it. -/
inductive Msg (F : Type) where
  | physicsTick (p : PhysicsTickPayload)
  | stateRequest
  | stateData (p : StatePayload)
  | motorSequence (p : MotorSequencePayload)
  | motorStatus (p : MotorStatusPayload)
  | kinematicsRequest
  | kinematicsData (p : KinematicsPayload F)
  | powerRequest
  | powerData (p : PowerPayload F)
  | thermalRequest
  | thermalData (p : ThermalPayload F)
  | environmentAck (p : EnvironmentAckPayload)
  | environmentRequest (p : EnvironmentRequestPayload F)
  | environmentData (p : EnvironmentPayload F)
  | autoDriveCommand (p : AutoDriveCommandPayload F)
  | autoDriveStatus (p : AutoDriveStatusPayload F)
  | internalEnvRequest (p : InternalEnvRequestPayload F)
  | internalEnvData (p : InternalEnvDataPayload)
  deriving DecidableEq

/-- The identifier a message is published under. -/
def Msg.id {F : Type} : Msg F → MsgId
  | .physicsTick _ => .physicsTick
  | .stateRequest => .stateRequest
  | .stateData _ => .stateData
  | .motorSequence _ => .motorSequence
  | .motorStatus _ => .motorStatus
  | .kinematicsRequest => .kinematicsRequest
  | .kinematicsData _ => .kinematicsData
  | .powerRequest => .powerRequest
  | .powerData _ => .powerData
  | .thermalRequest => .thermalRequest
  | .thermalData _ => .thermalData
  | .environmentAck _ => .environmentAck
  | .environmentRequest _ => .environmentRequest
  | .environmentData _ => .environmentData
  | .autoDriveCommand _ => .autoDriveCommand
  | .autoDriveStatus _ => .autoDriveStatus
  | .internalEnvRequest _ => .internalEnvRequest
  | .internalEnvData _ => .internalEnvData

end ReflectPytest
