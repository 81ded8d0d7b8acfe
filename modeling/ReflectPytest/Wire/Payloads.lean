import ReflectPytest.Wire.Generator
import ReflectPytest.Messages

set_option autoImplicit false

/-! # The payload structs

The structs of `messages/*.h` as types of the generator, and the module `generate_bindings` emits
for them. -/

namespace ReflectPytest

open PyStruct

/-! ## Member types -/

/-- A struct of public members. -/
def struct : List (String × CType × List Nat) → Members
  | [] => .nil
  | (name, t, extents) :: rest => .cons name .accessible t extents (struct rest)

namespace CType

def char : CType := .scalar (.arith .char)
def bool : CType := .scalar (.arith .bool)
def uint8 : CType := .scalar (.arith .uchar)
def uint16 : CType := .scalar (.arith .ushort)
def int16 : CType := .scalar (.arith .short)
def uint32 : CType := .scalar (.arith .uint)
def float : CType := .scalar .float

/-- `enum class name : uint8_t`. -/
def enum8 (name : String) : CType := .scalar (.enum name .uchar)

/-- `std::array<T, n>`. -/
def array (t : CType) (n : Nat) : CType := .stdArray t [] n

end CType

namespace Payload

open CType

/-! ## core_msgs.h -/

def logPayload : CType := .cls "LogPayload" <| struct
  [("text", char, [255]), ("severity", enum8 "Severity", []), ("component", char, [32])]

def stateRequestPayload : CType := .cls "StateRequestPayload" <| struct [("reserved", uint8, [])]

def statePayload : CType := .cls "StatePayload" <| struct [("state", enum8 "SystemState", [])]

def physicsTickPayload : CType := .cls "PhysicsTickPayload" <| struct
  [("cmd_id", uint32, []), ("speed_rpm", int16, []), ("dt_us", uint32, [])]

/-! ## simulation_msgs.h -/

def motorSubCmd : CType := .cls "MotorSubCmd" <| struct
  [("speed_rpm", int16, []), ("duration_us", uint32, [])]

def motorSequencePayload : CType := .cls "MotorSequencePayloadTemplate_5" <| struct
  [("cmd_id", uint32, []), ("num_steps", uint8, []), ("steps", array motorSubCmd 5, [])]

def kinematicsRequestPayload : CType := .cls "KinematicsRequestPayload" <| struct
  [("reserved", uint8, [])]

def kinematicsPayload : CType := .cls "KinematicsPayload" <| struct
  [("cmd_id", uint32, []), ("elapsed_us", uint32, []), ("position_m", float, []),
    ("speed_mps", float, [])]

def powerRequestPayload : CType := .cls "PowerRequestPayload" <| struct [("reserved", uint8, [])]

def powerPayload : CType := .cls "PowerPayload" <| struct
  [("cmd_id", uint32, []), ("voltage_v", float, []), ("current_a", float, []),
    ("state_of_charge", uint8, [])]

def thermalRequestPayload : CType := .cls "ThermalRequestPayload" <| struct
  [("reserved", uint8, [])]

def thermalPayload : CType := .cls "ThermalPayload" <| struct
  [("motor_temp_c", float, []), ("battery_temp_c", float, [])]

def motorStatusPayload : CType := .cls "MotorStatusPayload" <| struct
  [("cmd_id", uint32, []), ("speed_rpm", int16, []), ("is_active", bool, [])]

/-! ## autonomous_msgs.h -/

def point2D : CType := .cls "Point2D" <| struct [("x", float, []), ("y", float, [])]

def boundingBox2D : CType := .cls "BoundingBox2D" <| struct
  [("min_pt", point2D, []), ("max_pt", point2D, [])]

def vector3 : CType := .cls "Vector3" <| struct
  [("x", float, []), ("y", float, []), ("z", float, [])]

def envId : CType := .cls "EnvId" <| struct [("id", uint32, [])]

def environmentRequestPayload : CType := .cls "EnvironmentRequestPayload" <| struct
  [("target_location", point2D, [])]

def environmentAckPayload : CType := .cls "EnvironmentAckPayload" <| struct
  [("region_id", uint32, [])]

def environmentPayload : CType := .cls "EnvironmentPayload" <| struct
  [("region_id", uint32, []), ("bounds", boundingBox2D, []), ("ambient_temp_c", float, []),
    ("incline_percent", float, []), ("surface_friction", float, []), ("max_speed_rpm", float, [])]

def maneuverNode : CType := .cls "ManeuverNode" <| struct
  [("target_pos", point2D, []), ("timeout_ms", uint16, [])]

def autoDriveCommandPayload : CType := .cls "AutoDriveCommandTemplate_8" <| struct
  [("route_name", char, [32]), ("mode", enum8 "DriveMode", []), ("p_gain", float, []),
    ("use_environment_tuning", bool, []), ("route_transform", array vector3 3, []),
    ("num_nodes", uint8, []), ("route", array maneuverNode 8, [])]

def maneuverStats : CType := .cls "ManeuverStats" <| struct
  [("initial_energy_mj", float, []), ("final_energy_mj", float, []),
    ("energy_per_meter_mj", float, []), ("total_energy_used_mj", float, [])]

def autoDriveStatusPayload : CType := .cls "AutoDriveStatusTemplate_8__4" <| struct
  [("cmd_id", uint32, []), ("current_node_idx", uint8, []), ("route_complete", bool, []),
    ("num_stats", uint8, []), ("node_stats", array maneuverStats 8, []),
    ("num_environments_used", uint8, []), ("environment_ids", array envId 4, [])]

def internalEnvRequestPayload : CType := .cls "InternalEnvRequestPayload" <| struct
  [("x", float, []), ("y", float, [])]

/-- All that `std::shared_ptr` has is in a base class: two pointers. -/
def sharedPtr : CType := .cls "std__shared_ptr_const_EnvironmentPayload" <|
  .cons "__shared_ptr" .hidden (.scalar (.other 16 8)) [] .nil

def internalEnvDataPayload : CType := .cls "InternalEnvDataPayload" <| struct
  [("ptr", sharedPtr, [])]

end Payload

/-! ## MessageTraits -/

namespace MsgId

/-- `MessageTraits<Id>::Payload`. -/
def payload : MsgId → CType
  | .log => Payload.logPayload
  | .physicsTick => Payload.physicsTickPayload
  | .stateRequest => Payload.stateRequestPayload
  | .stateData => Payload.statePayload
  | .motorSequence => Payload.motorSequencePayload
  | .motorStatus => Payload.motorStatusPayload
  | .kinematicsRequest => Payload.kinematicsRequestPayload
  | .kinematicsData => Payload.kinematicsPayload
  | .powerRequest => Payload.powerRequestPayload
  | .powerData => Payload.powerPayload
  | .thermalRequest => Payload.thermalRequestPayload
  | .thermalData => Payload.thermalPayload
  | .environmentAck => Payload.environmentAckPayload
  | .environmentRequest => Payload.environmentRequestPayload
  | .environmentData => Payload.environmentPayload
  | .autoDriveCommand => Payload.autoDriveCommandPayload
  | .autoDriveStatus => Payload.autoDriveStatusPayload
  | .internalEnvRequest => Payload.internalEnvRequestPayload
  | .internalEnvData => Payload.internalEnvDataPayload

/-- The value of the enumerator. -/
def value : MsgId → Nat
  | .log => 0 | .physicsTick => 1 | .stateRequest => 2 | .stateData => 3
  | .motorSequence => 10 | .motorStatus => 11 | .kinematicsRequest => 20 | .kinematicsData => 21
  | .powerRequest => 30 | .powerData => 31 | .thermalRequest => 40 | .thermalData => 41
  | .environmentAck => 50 | .environmentRequest => 51 | .environmentData => 52
  | .autoDriveCommand => 60 | .autoDriveStatus => 61
  | .internalEnvRequest => 1000 | .internalEnvData => 1001

/-- The enumerators in order. -/
def all : List MsgId :=
  [.log, .physicsTick, .stateRequest, .stateData, .motorSequence, .motorStatus, .kinematicsRequest,
    .kinematicsData, .powerRequest, .powerData, .thermalRequest, .thermalData, .environmentAck,
    .environmentRequest, .environmentData, .autoDriveCommand, .autoDriveStatus,
    .internalEnvRequest, .internalEnvData]

theorem mem_all (id : MsgId) : id ∈ all := by
  cases id <;> decide

theorem value_injective {id id' : MsgId} (h : id.value = id'.value) : id = id' := by
  revert h
  cases id <;> cases id' <;> decide

end MsgId

/-- The classes `generate_bindings` emits: `MotorSubCmd`, then what every message needs. -/
def generateBindings : PyModule :=
  (MsgId.all.foldl (fun e id => generateStruct id.payload e)
    (generateStruct Payload.motorSubCmd {})).classes

end ReflectPytest
