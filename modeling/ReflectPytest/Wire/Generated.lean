import ReflectPytest.Wire.Codec
import ReflectPytest.Wire.Payloads

set_option autoImplicit false

/-! # generated.py

The classes of the checked-in module, what the bridge does with their bytes, and that the two sides
of the wire agree. -/

namespace ReflectPytest

open PyStruct LittleEndian

/-! ## The classes -/

/-- A class that packs and unpacks all its fields at once. -/
def flat (name : String) (wireSize : Nat) (fields : List (String × TypeName)) (fmt : List Item) :
    PyClass :=
  ⟨name, wireSize, fields, [.structPack fmt (fields.map Prod.fst)],
    [.unpackFrom (fields.map Prod.fst) fmt]⟩

namespace Generated

def motorSubCmd : PyClass := flat "MotorSubCmd" 8
  [("speed_rpm", .builtin), ("duration_us", .builtin)]
  [.code .h, .pad 2, .code .I]

def logPayload : PyClass := flat "LogPayload" 288
  [("text", .builtin), ("severity", .enum "Severity"), ("component", .builtin)]
  [.str 255, .code .B, .str 32]

def physicsTickPayload : PyClass := flat "PhysicsTickPayload" 12
  [("cmd_id", .builtin), ("speed_rpm", .builtin), ("dt_us", .builtin)]
  [.code .I, .code .h, .pad 2, .code .I]

def stateRequestPayload : PyClass := flat "StateRequestPayload" 1
  [("reserved", .builtin)]
  [.code .B]

def statePayload : PyClass := flat "StatePayload" 1
  [("state", .enum "SystemState")]
  [.code .B]

def motorSequencePayload : PyClass where
  name := "MotorSequencePayloadTemplate_5"
  wireSize := 48
  fields := [("cmd_id", .builtin), ("num_steps", .builtin), ("steps", .cls "MotorSubCmd")]
  packWire := [.structPack [.code .I, .code .B, .pad 3] ["cmd_id", "num_steps"],
    .forItems "steps" (.cls "MotorSubCmd") false]
  unpackWire := [.unpackFrom ["cmd_id", "num_steps"] [.code .I, .code .B, .pad 3],
    .forRange "steps" 5 (.cls "MotorSubCmd")]

def motorStatusPayload : PyClass := flat "MotorStatusPayload" 8
  [("cmd_id", .builtin), ("speed_rpm", .builtin), ("is_active", .builtin)]
  [.code .I, .code .h, .code .bool, .pad 1]

def kinematicsRequestPayload : PyClass := flat "KinematicsRequestPayload" 1
  [("reserved", .builtin)]
  [.code .B]

def kinematicsPayload : PyClass := flat "KinematicsPayload" 16
  [("cmd_id", .builtin), ("elapsed_us", .builtin), ("position_m", .builtin),
    ("speed_mps", .builtin)]
  [.code .I, .code .I, .code .f, .code .f]

def powerRequestPayload : PyClass := flat "PowerRequestPayload" 1
  [("reserved", .builtin)]
  [.code .B]

def powerPayload : PyClass := flat "PowerPayload" 16
  [("cmd_id", .builtin), ("voltage_v", .builtin), ("current_a", .builtin),
    ("state_of_charge", .builtin)]
  [.code .I, .code .f, .code .f, .code .B, .pad 3]

def thermalRequestPayload : PyClass := flat "ThermalRequestPayload" 1
  [("reserved", .builtin)]
  [.code .B]

def thermalPayload : PyClass := flat "ThermalPayload" 8
  [("motor_temp_c", .builtin), ("battery_temp_c", .builtin)]
  [.code .f, .code .f]

def environmentAckPayload : PyClass := flat "EnvironmentAckPayload" 4
  [("region_id", .builtin)]
  [.code .I]

def point2D : PyClass := flat "Point2D" 8
  [("x", .builtin), ("y", .builtin)]
  [.code .f, .code .f]

def environmentRequestPayload : PyClass where
  name := "EnvironmentRequestPayload"
  wireSize := 8
  fields := [("target_location", .cls "Point2D")]
  packWire := [.nested "target_location"]
  unpackWire := [.nested "target_location" (.cls "Point2D")]

def boundingBox2D : PyClass where
  name := "BoundingBox2D"
  wireSize := 16
  fields := [("min_pt", .cls "Point2D"), ("max_pt", .cls "Point2D")]
  packWire := [.nested "min_pt", .nested "max_pt"]
  unpackWire := [.nested "min_pt" (.cls "Point2D"), .nested "max_pt" (.cls "Point2D")]

def environmentPayload : PyClass where
  name := "EnvironmentPayload"
  wireSize := 36
  fields := [("region_id", .builtin), ("bounds", .cls "BoundingBox2D"),
    ("ambient_temp_c", .builtin), ("incline_percent", .builtin), ("surface_friction", .builtin),
    ("max_speed_rpm", .builtin)]
  packWire := [.structPack [.code .I] ["region_id"], .nested "bounds",
    .structPack [.code .f, .code .f, .code .f, .code .f]
      ["ambient_temp_c", "incline_percent", "surface_friction", "max_speed_rpm"]]
  unpackWire := [.unpackFrom ["region_id"] [.code .I], .nested "bounds" (.cls "BoundingBox2D"),
    .unpackFrom ["ambient_temp_c", "incline_percent", "surface_friction", "max_speed_rpm"]
      [.code .f, .code .f, .code .f, .code .f]]

def vector3 : PyClass := flat "Vector3" 12
  [("x", .builtin), ("y", .builtin), ("z", .builtin)]
  [.code .f, .code .f, .code .f]

def maneuverNode : PyClass where
  name := "ManeuverNode"
  wireSize := 12
  fields := [("target_pos", .cls "Point2D"), ("timeout_ms", .builtin)]
  packWire := [.nested "target_pos", .structPack [.code .H, .pad 2] ["timeout_ms"]]
  unpackWire := [.nested "target_pos" (.cls "Point2D"),
    .unpackFrom ["timeout_ms"] [.code .H, .pad 2]]

def autoDriveCommandPayload : PyClass where
  name := "AutoDriveCommandTemplate_8"
  wireSize := 180
  fields := [("route_name", .builtin), ("mode", .enum "DriveMode"), ("p_gain", .builtin),
    ("use_environment_tuning", .builtin), ("route_transform", .cls "Vector3"),
    ("num_nodes", .builtin), ("route", .cls "ManeuverNode")]
  packWire := [
    .structPack [.str 32, .code .B, .pad 3, .code .f, .code .bool, .pad 3]
      ["route_name", "mode", "p_gain", "use_environment_tuning"],
    .forItems "route_transform" (.cls "Vector3") false,
    .structPack [.code .B, .pad 3] ["num_nodes"], .forItems "route" (.cls "ManeuverNode") false]
  unpackWire := [
    .unpackFrom ["route_name", "mode", "p_gain", "use_environment_tuning"]
      [.str 32, .code .B, .pad 3, .code .f, .code .bool, .pad 3],
    .forRange "route_transform" 3 (.cls "Vector3"), .unpackFrom ["num_nodes"] [.code .B, .pad 3],
    .forRange "route" 8 (.cls "ManeuverNode")]

def maneuverStats : PyClass := flat "ManeuverStats" 16
  [("initial_energy_mj", .builtin), ("final_energy_mj", .builtin),
    ("energy_per_meter_mj", .builtin), ("total_energy_used_mj", .builtin)]
  [.code .f, .code .f, .code .f, .code .f]

def envId : PyClass := flat "EnvId" 4
  [("id", .builtin)]
  [.code .I]

def autoDriveStatusPayload : PyClass where
  name := "AutoDriveStatusTemplate_8__4"
  wireSize := 156
  fields := [("cmd_id", .builtin), ("current_node_idx", .builtin), ("route_complete", .builtin),
    ("num_stats", .builtin), ("node_stats", .cls "ManeuverStats"),
    ("num_environments_used", .builtin), ("environment_ids", .cls "EnvId")]
  packWire := [
    .structPack [.code .I, .code .B, .code .bool, .code .B, .pad 1]
      ["cmd_id", "current_node_idx", "route_complete", "num_stats"],
    .forItems "node_stats" (.cls "ManeuverStats") false,
    .structPack [.code .B, .pad 3] ["num_environments_used"],
    .forItems "environment_ids" (.cls "EnvId") false]
  unpackWire := [
    .unpackFrom ["cmd_id", "current_node_idx", "route_complete", "num_stats"]
      [.code .I, .code .B, .code .bool, .code .B, .pad 1],
    .forRange "node_stats" 8 (.cls "ManeuverStats"),
    .unpackFrom ["num_environments_used"] [.code .B, .pad 3],
    .forRange "environment_ids" 4 (.cls "EnvId")]

def internalEnvRequestPayload : PyClass := flat "InternalEnvRequestPayload" 8
  [("x", .builtin), ("y", .builtin)]
  [.code .f, .code .f]

def sharedPtr : PyClass where
  name := "std__shared_ptr_const_EnvironmentPayload"
  wireSize := 16
  fields := []
  packWire := []
  unpackWire := []

def internalEnvDataPayload : PyClass where
  name := "InternalEnvDataPayload"
  wireSize := 16
  fields := [("ptr", .cls "std__shared_ptr_const_EnvironmentPayload")]
  packWire := [.nested "ptr"]
  unpackWire := [.nested "ptr" (.cls "std__shared_ptr_const_EnvironmentPayload")]

end Generated

open Generated in
/-- `generated.py`. -/
def generated : PyModule :=
  [motorSubCmd, logPayload, physicsTickPayload, stateRequestPayload, statePayload,
    motorSequencePayload, motorStatusPayload, kinematicsRequestPayload, kinematicsPayload,
    powerRequestPayload, powerPayload, thermalRequestPayload, thermalPayload, environmentAckPayload,
    point2D, environmentRequestPayload, boundingBox2D, environmentPayload, vector3, maneuverNode,
    autoDriveCommandPayload, maneuverStats, envId, autoDriveStatusPayload,
    internalEnvRequestPayload, sharedPtr, internalEnvDataPayload]

/-- **The checked-in module is what the generator emits.** -/
theorem generateBindings_eq : generateBindings = generated := by
  decide

theorem generated_executable : generated.Executable := by
  decide

open Generated in
/-- `MESSAGE_BY_ID`. -/
def messageById : MsgId → PyClass
  | .log => logPayload
  | .physicsTick => physicsTickPayload
  | .stateRequest => stateRequestPayload
  | .stateData => statePayload
  | .motorSequence => motorSequencePayload
  | .motorStatus => motorStatusPayload
  | .kinematicsRequest => kinematicsRequestPayload
  | .kinematicsData => kinematicsPayload
  | .powerRequest => powerRequestPayload
  | .powerData => powerPayload
  | .thermalRequest => thermalRequestPayload
  | .thermalData => thermalPayload
  | .environmentAck => environmentAckPayload
  | .environmentRequest => environmentRequestPayload
  | .environmentData => environmentPayload
  | .autoDriveCommand => autoDriveCommandPayload
  | .autoDriveStatus => autoDriveStatusPayload
  | .internalEnvRequest => internalEnvRequestPayload
  | .internalEnvData => internalEnvDataPayload

/-- The payload of a message is the struct its class was generated for. -/
theorem payload_eq_cls (id : MsgId) : ∃ ms, id.payload = .cls (messageById id).name ms := by
  cases id <;> exact ⟨_, rfl⟩

/-- `PAYLOAD_SIZE_BY_ID`. -/
theorem wireSize_messageById (id : MsgId) : (messageById id).wireSize = id.payload.size := by
  cases id <;> decide

/-! ## The bridge -/

/-- `try_publish_raw`: the first identifier of the list with the right size; the payload has the
    bytes `memcpy` copies. -/
def tryPublishRaw (ids : List MsgId) (id : MsgId) (data : List UInt8) :
    Option (MsgId × List UInt8) :=
  (ids.find? fun i => decide (id = i ∧ data.length = i.payload.size)).map fun i =>
    (i, data.take i.payload.size)

/-- The datagram `forward_to_udp` sends for a payload object. -/
def forwardToUdp (id : MsgId) (payload : List UInt8) : List UInt8 := bytesOf 2 id.value ++ payload

theorem tryPublishRaw_of_mem {ids : List MsgId} {id : MsgId} {data : List UInt8} (hid : id ∈ ids)
    (hlen : data.length = id.payload.size) : tryPublishRaw ids id data = some (id, data) := by
  have hfind : ids.find? (fun i => decide (id = i ∧ data.length = i.payload.size)) = some id := by
    induction ids with
    | nil => exact absurd hid (by simp)
    | cons i ids ih =>
        by_cases hi : id = i
        · subst hi
          simp [hlen]
        · have hrest := ih ((List.mem_cons.1 hid).resolve_left hi)
          simpa [hi] using hrest
  rw [tryPublishRaw, hfind, Option.map_some, ← hlen, List.take_length]

/-! ## Agreement -/

section

variable {id : MsgId}

theorem generated_provides (id : MsgId) : generated.Provides id.payload.classes := by
  cases id <;> decide

theorem payload_wellFormed (id : MsgId) : id.payload.WellFormed := by
  cases id <;> decide

theorem payload_flushesValues (id : MsgId) :
    ∀ d ∈ id.payload.classes, d.2.FlushesValues d.1 := by
  cases id <;> decide

/-- Only the `std::shared_ptr` has members that Python cannot see. -/
theorem payload_encodable (hid : id ≠ .internalEnvData) :
    ∀ ms ∈ id.payload.instances, ms.Encodable := by
  cases id <;> first | decide | exact absurd rfl hid

/-- **The two sides of the wire agree** for every payload but that of `InternalEnvData`: `pack_wire`
    writes `WIRE_SIZE` bytes, the bridge gets a struct with the same fields from them, and
    `unpack_wire` gets the fields back from these bytes and from those of any struct the bridge
    forwards. -/
theorem wire_agreement (hid : id ≠ .internalEnvData) {v : PyVal} (hv : id.payload.HasType v) :
    ∃ depth bs, generated.packWire depth v = some bs ∧ bs.length = (messageById id).wireSize ∧
      (∀ ids, id ∈ ids → ∃ p, tryPublishRaw ids id bs = some (id, p) ∧ id.payload.Represents v p) ∧
      generated.unpackWire depth (messageById id).name bs = some v ∧
      ∀ p, id.payload.Represents v p →
        generated.unpackWire depth (messageById id).name ((forwardToUdp id p).drop 2) = some v := by
  obtain ⟨ms, hpayload⟩ := payload_eq_cls id
  have hwellFormed := payload_wellFormed id
  have hprovides := generated_provides id
  have hflush := payload_flushesValues id
  have hencodable := payload_encodable hid
  have hlen := CType.length_encode hwellFormed hv
  have hrep := CType.represents_encode hwellFormed hv
  rw [hpayload] at hwellFormed hprovides hflush hencodable hv hrep
  have hcalls : Calls generated _ _ ((messageById id).name, ms) :=
    calls_of_encodable (CType.cls (messageById id).name ms).depth hprovides hflush hencodable
      hwellFormed le_rfl
  refine ⟨(CType.cls (messageById id).name ms).depth, id.payload.encode v, ?_,
    hlen.trans (wireSize_messageById id).symm, ?_, ?_, ?_⟩
  · rw [hpayload]
    exact hcalls.pack v hv
  · intro ids hmem
    exact ⟨_, tryPublishRaw_of_mem hmem hlen, hpayload ▸ hrep⟩
  · exact hcalls.unpack v _ hv (hpayload ▸ hrep)
  · intro p hp
    rw [forwardToUdp, List.drop_left' (length_bytesOf 2 _)]
    exact hcalls.unpack v p hv (hpayload ▸ hp)

def vectorObject (x y z : BitVec 32) : PyVal :=
  .obj "Vector3" [("x", .float32 x), ("y", .float32 y), ("z", .float32 z)]

def nodeObject (x : BitVec 32) (timeoutMs : Int) : PyVal :=
  .obj "ManeuverNode" [("target_pos", .obj "Point2D" [("x", .float32 x), ("y", .float32 0)]),
    ("timeout_ms", .int timeoutMs)]

/-- A command with a route of two nodes, and a name of five of its 32 bytes. -/
def northRoute : PyVal := .obj "AutoDriveCommandTemplate_8"
  [("route_name", .bytes ([0x6E, 0x6F, 0x72, 0x74, 0x68] ++ zeros 27)), ("mode", .int 2),
    ("p_gain", .float32 0x3F000000), ("use_environment_tuning", .bool true),
    ("route_transform", .list [vectorObject 0x3F800000 0 0, vectorObject 0 0x3F800000 0,
      vectorObject 0 0 0]),
    ("num_nodes", .int 2),
    ("route", .list (nodeObject 0x3F800000 500 :: nodeObject 0x40000000 65535 ::
      List.replicate 6 (nodeObject 0 0)))]

theorem northRoute_typed : MsgId.autoDriveCommand.payload.HasType northRoute := by
  have hvector (x y z : BitVec 32) : Payload.vector3.HasType (vectorObject x y z) := by
    rw [Payload.vector3, vectorObject, CType.HasType]
    exact ⟨rfl, rfl, trivial, rfl, trivial, rfl, trivial, trivial⟩
  have hnode (x : BitVec 32) {t : Int} (ht : IntType.ushort.InRange t) :
      Payload.maneuverNode.HasType (nodeObject x t) := by
    rw [Payload.maneuverNode, nodeObject, CType.HasType]
    exact ⟨rfl, rfl, ⟨rfl, rfl, trivial, rfl, trivial, trivial⟩, rfl, ht, trivial⟩
  have hsmall : IntType.uchar.InRange 2 := by decide
  rw [MsgId.payload, Payload.autoDriveCommandPayload, northRoute, CType.HasType]
  refine ⟨rfl, rfl, ⟨rfl, rfl⟩, rfl, hsmall, rfl, trivial, rfl, trivial, rfl, ⟨rfl, rfl, ?_⟩, rfl,
    hsmall, rfl, ⟨rfl, rfl, ?_⟩, trivial⟩
  · simpa using ⟨hvector _ _ _, hvector _ _ _, hvector _ _ _⟩
  · simpa using ⟨hnode _ (by decide), hnode _ (by decide), hnode _ (by decide)⟩

theorem wire_agreement_autoDriveCommand : ∃ depth bs,
    generated.packWire depth northRoute = some bs ∧ bs.length = 180 ∧
      (∃ p, tryPublishRaw [.autoDriveCommand] .autoDriveCommand bs = some (.autoDriveCommand, p)) ∧
      generated.unpackWire depth "AutoDriveCommandTemplate_8" bs = some northRoute := by
  obtain ⟨depth, bs, hpack, hlen, hraw, hunpack, -⟩ := wire_agreement (by decide) northRoute_typed
  obtain ⟨p, hp, -⟩ := hraw [.autoDriveCommand] (by decide)
  exact ⟨depth, bs, hpack, hlen, ⟨p, hp⟩, hunpack⟩

end

end ReflectPytest
