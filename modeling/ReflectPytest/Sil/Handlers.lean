import ReflectPytest.App
import ReflectPytest.Services.Log
import ReflectPytest.Library.LockedBus

set_option autoImplicit false

/-! # Handlers with their mutexes

The handlers of `App.code` again, now instruction by instruction: each locks and unlocks the `mu_`
of its service where the source does and calls the logger where the source does, and the bridge and
the log sink take part. What a handler computes is the same function as there.

A mutex is named by its service; the one of the bridge is `peer_mu_`. -/

namespace ReflectPytest

open LockedBus

namespace Sil

/-! ## Data -/

inductive Severity where
  | debug | info | warn | error
  deriving DecidableEq, Repr

/-- A log line. Its text is given by its format; the values printed are left out. -/
structure LogPayload where
  severity : Severity
  component : String
  format : String
  deriving DecidableEq

/-- `sockaddr_in`: address and port. -/
structure SockAddr where
  addr : Nat
  port : Nat
  deriving DecidableEq

/-- The threads of the process; `outside` is whatever else happens: signals and the passage of
    time. -/
inductive Thread where
  | main | clock | rx | worker | heartbeat | outside
  deriving DecidableEq, Repr

instance : Fintype Thread :=
  ⟨{.main, .clock, .rx, .worker, .heartbeat, .outside}, fun t => by cases t <;> decide⟩

/-- What a thread calls: a publish on the bus, of a message of the services or of a log line, or
    `LogService::log`. -/
inductive Call (F : Type) where
  | message (m : Msg F)
  | logData (p : LogPayload)
  | log (p : LogPayload)
  deriving DecidableEq

/-- The identifier a datagram with this payload carries. -/
def Call.id {F : Type} : Call F → MsgId
  | .message m => m.id
  | .logData _ | .log _ => .log

/-- A datagram handed to `sendto`, and the thread that sent it. -/
structure Sent (F : Type) where
  thread : Thread
  peer : SockAddr
  payload : Call F
  deriving DecidableEq

/-- Everything the threads share: the services' state with the history of publishes, the
    function-local tick counters of three of them, the log queue, the peer the bridge answers to
    and the datagrams it has sent, newest first, and the flags and joins of the shutdown. -/
structure State (F : Type) where
  app : World F
  kinematicsCount : Nat
  powerCount : Nat
  thermalCount : Nat
  log : LogService LogPayload
  peer : Option SockAddr
  sent : List (Sent F)
  /-- `g_running`. -/
  running : Bool
  /-- `running_` of `StateService`. -/
  clockRunning : Bool
  /-- A byte has been written to `wake_` of `UdpBridge`. -/
  wake : Bool
  exited : List Thread
  shutDown : Bool
  destroyed : List Service

variable {F : Type} [FloatOps F]

/-- All services as their constructors leave them. -/
def State.init : State F :=
  { app := .init, kinematicsCount := 0, powerCount := 0, thermalCount := 0, log := .init
    peer := none, sent := [], running := true, clockRunning := true, wake := false, exited := []
    shutDown := false, destroyed := [] }

/-- Code of the process. -/
abbrev Code (F : Type) : Type := Prog Thread (State F) (Call F) Service

/-- `std::recursive_mutex`, as opposed to `std::mutex`. -/
def recursive : Service → Bool
  | .environment | .autonomous => true
  | _ => false

/-! ## Building blocks -/

/-- `logger_.info`. -/
def info (component format : String) : Call F := .log ⟨.info, component, format⟩

/-- Publishes of the services. -/
def publishes (ms : List (Msg F)) : List (Call F) := ms.map Call.message

/-- Change the state of the services. -/
def update (run : World F → World F) (next : World F → Code F) : Code F :=
  .act (fun _ s => { s with app := run s.app }) fun s => next s.app

/-- Read the state of the services. -/
def look (next : World F → Code F) : Code F := .read fun s => next s.app

/-- A `static uint32_t count`, incremented. -/
def increment (count : Nat) : Nat := (count + 1) % 2 ^ 32

/-- Log every 100 ticks. -/
def everyHundred (count : Nat) (line : Call F) : List (Call F) :=
  if increment count % 100 = 0 then [line] else []

/-! ## MotorService -/

namespace Motor

def onMotorSequence (cmd : MotorSequencePayload) : Code F :=
  .call (info "motor" "Received MotorSequence with %u steps") <|
  .lock .motor <|
  update (fun w => { w with motor := (w.motor.onMotorSequence cmd).1 }) fun w =>
  .call (.message (.motorStatus (w.motor.onMotorSequence cmd).2)) <|
  .calls (if (w.motor.onMotorSequence cmd).1.active then []
    else [info "motor" "Motor sequence %u stopped immediately (zero duration or empty)"]) <|
  .unlock .motor .done

/-- What `advance_step` calls. -/
def advanceCalls (status : MotorStatusPayload) : List (Call F) :=
  [.message (.motorStatus status), if status.isActive then
    info "motor" "Advancing to step %u: %d RPM" else info "motor" "Motor sequence %u complete"]

def onPhysicsTick (tick : PhysicsTickPayload) : Code F :=
  .lock .motor <|
  update (fun w => { w with motor := (w.motor.onPhysicsTick tick).1 }) fun w =>
  .calls ((w.motor.onPhysicsTick tick).2.elim [] advanceCalls) <|
  .unlock .motor .done

end Motor

/-! ## KinematicsService, PowerService and ThermalService -/

namespace Kinematics

def onPhysicsTick (tick : PhysicsTickPayload) : Code F :=
  .lock .kinematics <|
  update (fun w => { w with kinematics := w.kinematics.onPhysicsTick tick }) fun _ =>
  .act (fun _ s => { s with kinematicsCount := increment s.kinematicsCount }) fun s =>
  .calls (everyHundred s.kinematicsCount
    (info "kinematics" "Position: %.3fm, Speed: %.3fm/s")) <|
  .unlock .kinematics .done

def onMotorStatus (ms : MotorStatusPayload) : Code F :=
  .lock .kinematics <|
  update (fun w => { w with kinematics := w.kinematics.onMotorStatus ms }) fun _ =>
  .unlock .kinematics .done

def onKinematicsRequest : Code F :=
  .lock .kinematics <| look fun w => .unlock .kinematics <|
  .call (.message (.kinematicsData w.kinematics.onKinematicsRequest)) .done

end Kinematics

namespace Power

def onPhysicsTick (pow : F → F → F) (tick : PhysicsTickPayload) : Code F :=
  .lock .power <|
  update (fun w => { w with power := w.power.onPhysicsTick pow tick }) fun _ =>
  .act (fun _ s => { s with powerCount := increment s.powerCount }) fun s =>
  .calls (everyHundred s.powerCount
    (info "power" "Voltage: %.2fV, Current: %.3fA, SOC: %u%%")) <|
  .unlock .power .done

def onMotorStatus (ms : MotorStatusPayload) : Code F :=
  .lock .power <|
  update (fun w => { w with power := w.power.onMotorStatus ms }) fun _ =>
  .unlock .power .done

def onPowerRequest : Code F :=
  .lock .power <| look fun w => .unlock .power <|
  .call (.message (.powerData w.power.onPowerRequest)) .done

end Power

namespace Thermal

def onPhysicsTick (tick : PhysicsTickPayload) : Code F :=
  .lock .thermal <|
  update (fun w => { w with thermal := w.thermal.onPhysicsTick tick }) fun _ =>
  .act (fun _ s => { s with thermalCount := increment s.thermalCount }) fun s =>
  .calls (everyHundred s.thermalCount
    (info "thermal" "Motor Temp: %.1fC, Battery Temp: %.1fC")) <|
  .unlock .thermal .done

def onEnvironmentData (env : EnvironmentPayload F) : Code F :=
  .lock .thermal <|
  update (fun w => { w with thermal := w.thermal.onEnvironmentData env }) fun _ =>
  .unlock .thermal .done

/-- `publish_data`. -/
def onThermalRequest : Code F :=
  .lock .thermal <| look fun w => .unlock .thermal <|
  .call (.message (.thermalData w.thermal.publishData)) .done

end Thermal

/-! ## StateService -/

namespace StateService

def onStateRequest : Code F :=
  .lock .state <| look fun w => .unlock .state <|
  .call (.message (.stateData w.state.onStateRequest)) .done

def onMotorStatus (ms : MotorStatusPayload) : Code F :=
  .lock .state <|
  update (fun w => { w with state := w.state.onMotorStatus ms }) fun w =>
  .calls (if StateService.stateFor ms.isActive ≠ w.state.state then
    [info "state" "State transition to %u"] else []) <|
  .unlock .state .done

end StateService

/-! ## EnvironmentService -/

namespace Environment

def onEnvironmentData (env : EnvironmentPayload F) : Code F :=
  .lock .environment <|
  update (fun w => { w with environment := (w.environment.onEnvironmentData env).1 }) fun w =>
  .calls [info "env" "Environment updated: region %u, Temp %.1fC, Incline %.1f%%, Friction %.2f",
    .message (.environmentAck (w.environment.onEnvironmentData env).2)] <|
  .unlock .environment .done

def onInternalEnvRequest (req : InternalEnvRequestPayload F) : Code F :=
  .lock .environment <| look fun w =>
  match w.environment.lookup req with
  | some p =>
      .calls [info "env" "Internal pointer hit: sharing region %u",
        .message (.internalEnvData ⟨p⟩)] <|
      .unlock .environment .done
  | none =>
      if w.environment.mayRequest w.now then
        .calls [info "env" "Internal miss for (%.1f, %.1f) -> fetching from Python",
          .message (.environmentRequest ⟨⟨req.x, req.y⟩⟩)] <|
        update (App.setRequestTime w.now) fun _ =>
        .unlock .environment .done
      else .unlock .environment .done

end Environment

/-! ## AutonomousService -/

namespace Autonomous

/-- The region in use is steep, which halves the speed. -/
def steepIncline (deref : EnvPtr → EnvironmentPayload F) (s : AutonomousService F) : Bool :=
  s.cmd.useEnvironmentTuning && s.currentEnvPtr.any fun p =>
    FloatOps.lt (FloatOps.lit 5) (FloatOps.abs (deref p).inclinePercent)

/-- What `publish_motor_sequence_for_current_node` calls. -/
def sequenceCalls (deref : EnvPtr → EnvironmentPayload F) (s : AutonomousService F) :
    List (Call F) :=
  (if steepIncline deref s then
    [info "auto" "Steep incline (%.1f%%) detected - reducing speed to %d RPM"] else []) ++
    publishes (messages (s.publishMotorSequenceForCurrentNode deref))

def onAutoDriveCommand (cmd : AutoDriveCommandPayload F) : Code F :=
  .lock .autonomous <|
  .call (info "auto" "Received AutoDriveCommand: route %s (%u nodes)") <|
  update (fun w => { w with autonomous := w.autonomous.acceptCommand cmd }) fun w =>
  .calls (if (w.autonomous.acceptCommand cmd).routeActive then
    sequenceCalls w.environment.deref (w.autonomous.acceptCommand cmd) else []) <|
  .unlock .autonomous .done

/-- The region is new to the telemetry and there is room for it. -/
def tracks (s : AutonomousService F) (regionId : Nat) : Bool :=
  !s.usedEnvs.contains regionId && decide (s.usedEnvs.length < 4)

def onInternalEnvData (env : InternalEnvDataPayload) : Code F :=
  .lock .autonomous <|
  update (fun w => { w with
    autonomous := (w.autonomous.onInternalEnvData w.environment.deref env).1 }) fun w =>
  .calls ((if tracks w.autonomous (w.environment.deref env.ptr).regionId then
      [info "auto" "Tracking environment %u for telemetry at x=%.2f"] else []) ++
    if w.autonomous.routeActive then
      sequenceCalls w.environment.deref
        (w.autonomous.onInternalEnvData w.environment.deref env).1
    else []) <|
  .unlock .autonomous .done

def onPowerData (power : PowerPayload F) : Code F :=
  .lock .autonomous <|
  update (fun w => { w with autonomous := w.autonomous.onPowerData power }) fun _ =>
  .unlock .autonomous .done

/-- What the handler of a sample calls once the node is reached or not. -/
def checkCalls (deref : EnvPtr → EnvironmentPayload F) (s : AutonomousService F) (idx : Nat)
    (kin : KinematicsPayload F) : List (Call F) :=
  let s' := (s.checkNode deref idx kin).1
  if AutonomousService.reached (s.node idx).targetPos.x s.lastPosM kin.positionM then
    info "auto" "Reached node %u" ::
      ((if s'.cmd.numNodes ≤ s'.currentNodeIdx then [info "auto" "Route complete."]
        else if steepIncline deref s' then
          [info "auto" "Steep incline (%.1f%%) detected - reducing speed to %d RPM"]
        else []) ++ publishes (messages (s.checkNode deref idx kin).2))
  else []

def onKinematicsData (kin : KinematicsPayload F) : Code F :=
  .lock .autonomous <|
  update (fun w => (App.requestStretch kin w).1) fun w =>
  if w.autonomous.idle then .unlock .autonomous .done
  else
    .calls (publishes (App.requestStretch kin w).2) <|
    update (fun w' => (App.checkStretch w.autonomous.currentNodeIdx kin w').1) fun w' =>
    .calls (checkCalls w'.environment.deref w'.autonomous w.autonomous.currentNodeIdx kin) <|
    update (App.rememberStretch kin) fun _ =>
    .unlock .autonomous .done

def onPhysicsTick : Code F :=
  .lock .autonomous <| look fun w =>
  .calls (publishes (messages w.autonomous.onPhysicsTick)) <|
  .unlock .autonomous .done

end Autonomous

/-! ## UdpBridge and LogService -/

/-- `sendto`, if there is a peer. -/
def send (payload : Call F) (t : Thread) (s : State F) : State F :=
  match s.peer with
  | none => s
  | some peer => { s with sent := ⟨t, peer, payload⟩ :: s.sent }

/-- `forward_to_udp`. -/
def forwardToUdp (payload : Call F) : Code F :=
  .lock .udpBridge <| .act (send payload) fun _ => .unlock .udpBridge .done

omit [FloatOps F] in
theorem send_peer (payload : Call F) (t : Thread) (s : State F) :
    (send payload t s).peer = s.peer := by
  unfold send
  split <;> rfl

/-- `LogService::log`. -/
def log (p : LogPayload) : Code F :=
  .lock .log <| .act (fun _ s => { s with log := s.log.push p }) fun _ => .unlock .log .done

/-! ## The handler table -/

/-- The `on_message` of a service. -/
def onMessage (pf : Platform F) : Service → Msg F → Code F
  | .motor, .motorSequence cmd => Motor.onMotorSequence cmd
  | .motor, .physicsTick tick => Motor.onPhysicsTick tick
  | .kinematics, .physicsTick tick => Kinematics.onPhysicsTick tick
  | .kinematics, .motorStatus ms => Kinematics.onMotorStatus ms
  | .kinematics, .kinematicsRequest => Kinematics.onKinematicsRequest
  | .power, .physicsTick tick => Power.onPhysicsTick pf.pow tick
  | .power, .motorStatus ms => Power.onMotorStatus ms
  | .power, .powerRequest => Power.onPowerRequest
  | .state, .stateRequest => StateService.onStateRequest
  | .state, .motorStatus ms => StateService.onMotorStatus ms
  | .thermal, .physicsTick tick => Thermal.onPhysicsTick tick
  | .thermal, .environmentData env => Thermal.onEnvironmentData env
  | .thermal, .thermalRequest => Thermal.onThermalRequest
  | .environment, .environmentData env => Environment.onEnvironmentData env
  | .environment, .internalEnvRequest req => Environment.onInternalEnvRequest req
  | .autonomous, .autoDriveCommand cmd => Autonomous.onAutoDriveCommand cmd
  | .autonomous, .internalEnvData env => Autonomous.onInternalEnvData env
  | .autonomous, .powerData power => Autonomous.onPowerData power
  | .autonomous, .kinematicsData kin => Autonomous.onKinematicsData kin
  | .autonomous, .physicsTick _ => Autonomous.onPhysicsTick
  | .udpBridge, m => forwardToUdp (.message m)
  | _, _ => .done

/-- The code a call runs in one of its receivers. -/
def code (pf : Platform F) (h : Service) : Call F → Code F
  | .message m => onMessage pf h m
  | .logData p => if h = .udpBridge then forwardToUdp (.logData p) else .done
  | .log p => if h = .log then log p else .done

/-- Who is called: the subscribers of a message, in the order they subscribed, or the log
    sink. -/
def receivers (pf : Platform F) : Call F → List Service
  | .message m => pf.order.filter fun h => decide (m.id ∈ h.subscribes)
  | .logData _ => pf.order.filter fun h => decide (MsgId.log ∈ h.subscribes)
  | .log _ => [.log]

theorem onMessage_udpBridge (pf : Platform F) (m : Msg F) :
    onMessage pf .udpBridge m = forwardToUdp (.message m) := by
  cases m <;> rfl

/-! ## What handlers call -/

/-- Calls under these identifiers only; every log line counts as `Log`. -/
def CallsOnly (ids : List MsgId) (cs : List (Call F)) : Prop := ∀ c ∈ cs, c.id ∈ ids

omit [FloatOps F] in
theorem callsOnly_publishes {ids : List MsgId} {ms : List (Msg F)} (h : ∀ m ∈ ms, m.id ∈ ids) :
    CallsOnly ids (publishes ms) := by
  intro c hc
  obtain ⟨m, hm, rfl⟩ := List.mem_map.1 hc
  exact h m hm

omit [FloatOps F] in
theorem callsOnly_advance (status : Option MotorStatusPayload) :
    CallsOnly [.motorStatus, .log] (status.elim [] (Motor.advanceCalls (F := F))) := by
  cases status with
  | none => simp [CallsOnly]
  | some ms =>
      simp only [Option.elim, Motor.advanceCalls]
      split <;> simp [CallsOnly, Call.id, Msg.id, info]

theorem callsOnly_sequence (deref : EnvPtr → EnvironmentPayload F) (s : AutonomousService F) :
    CallsOnly [.log, .motorSequence] (Autonomous.sequenceCalls deref s) := by
  unfold Autonomous.sequenceCalls
  intro c hc
  rcases List.mem_append.1 hc with hc | hc
  · split at hc <;> simp_all [Call.id, info]
  · refine callsOnly_publishes (fun m hm => ?_) c hc
    simp_all [AutonomousService.publishMotorSequenceForCurrentNode, Msg.id]

theorem callsOnly_check (deref : EnvPtr → EnvironmentPayload F) (s : AutonomousService F)
    (idx : Nat) (kin : KinematicsPayload F) :
    CallsOnly [.log, .internalEnvRequest, .autoDriveStatus, .motorSequence]
      (Autonomous.checkCalls deref s idx kin) := by
  unfold Autonomous.checkCalls
  dsimp only
  intro c hc
  split at hc
  · rcases List.mem_cons.1 hc with rfl | hc
    · simp [Call.id, info]
    · rcases List.mem_append.1 hc with hc | hc
      · split at hc
        · simp_all [Call.id, info]
        · split at hc <;> simp_all [Call.id, info]
      · refine callsOnly_publishes (fun m hm => ?_) c hc
        exact List.mem_cons_of_mem _ (List.mem_cons_of_mem _
          (App.publishesOnly_checkNode deref s idx kin m hm))
  · exact absurd hc List.not_mem_nil

theorem callsOnly_requestStretch (kin : KinematicsPayload F) (w : World F) :
    CallsOnly [.internalEnvRequest] (publishes (App.requestStretch kin w).2) := by
  refine callsOnly_publishes fun m hm => ?_
  unfold App.requestStretch AutonomousService.requestEnvironment at hm
  split at hm
  · simp at hm
  · split at hm <;> simp_all [Msg.id]

omit [FloatOps F] in
theorem callsOnly_polls (s : AutonomousService F) :
    CallsOnly [.kinematicsRequest, .powerRequest] (publishes (messages s.onPhysicsTick)) := by
  refine callsOnly_publishes fun m hm => ?_
  unfold AutonomousService.onPhysicsTick at hm
  split at hm
  · simp only [messages_publish, messages_nil, List.mem_cons, List.not_mem_nil, or_false] at hm
    rcases hm with rfl | rfl <;> simp [Msg.id]
  · simp at hm

/-! ## What handlers change -/

/-- The action leaves the peer, the datagrams sent and the destroyed services alone. -/
def Local (action : Thread → State F → State F) : Prop :=
  ∀ t s, (action t s).peer = s.peer ∧ (action t s).sent = s.sent ∧
    (action t s).destroyed = s.destroyed

/-- Only `forward_to_udp` does more. -/
theorem onMessage_local (pf : Platform F) (h : Service) (m : Msg F) (hh : h ≠ .udpBridge) :
    (onMessage pf h m).Acts Local := by
  cases h <;> cases m
  case udpBridge.physicsTick => exact absurd rfl hh
  case environment.internalEnvRequest req =>
      refine ⟨fun _ _ => ⟨rfl, rfl, rfl⟩, fun s => ?_⟩
      dsimp only
      split
      · simp [Prog.Acts]
      · split
        · simp [Prog.Acts, update, Local]
        · trivial
  case autonomous.kinematicsData kin =>
      refine ⟨fun _ _ => ⟨rfl, rfl, rfl⟩, fun s => ?_⟩
      dsimp only
      split
      · trivial
      · simp [Prog.Acts, update, Local]
  all_goals
    first
    | exact absurd rfl hh
    | simp [onMessage, Motor.onMotorSequence, Motor.onPhysicsTick, Kinematics.onPhysicsTick,
        Kinematics.onMotorStatus, Kinematics.onKinematicsRequest, Power.onPhysicsTick,
        Power.onMotorStatus, Power.onPowerRequest, Thermal.onPhysicsTick,
        Thermal.onEnvironmentData, Thermal.onThermalRequest, StateService.onStateRequest,
        StateService.onMotorStatus, Environment.onEnvironmentData, Autonomous.onAutoDriveCommand,
        Autonomous.onPowerData, Autonomous.onPhysicsTick, Autonomous.onInternalEnvData, update,
        look, Prog.read, Prog.Acts, Local]

/-- What local actions and `forward_to_udp` meet, all code that is called meets. -/
theorem code_acts {P : (Thread → State F → State F) → Prop} (pf : Platform F) (h : Service)
    (c : Call F) (hlocal : ∀ {action}, Local action → P action)
    (hsend : ∀ c, (forwardToUdp c).Acts P) : (code pf h c).Acts P := by
  cases c with
  | message m =>
      by_cases hh : h = .udpBridge
      · subst hh
        show (onMessage pf .udpBridge m).Acts P
        rw [onMessage_udpBridge]
        exact hsend _
      · exact (onMessage_local pf h m hh).mono fun _ h => hlocal h
  | logData p =>
      show (if h = .udpBridge then forwardToUdp (.logData p) else .done : Code F).Acts P
      split
      · exact hsend _
      · trivial
  | log p =>
      show (if h = .log then log p else .done : Code F).Acts P
      split
      · -- A line is pushed on the queue of `LogService`.
        exact ⟨hlocal fun _ _ => ⟨rfl, rfl, rfl⟩, fun _ => trivial⟩
      · trivial

end Sil

end ReflectPytest
