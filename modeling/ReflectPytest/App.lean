import ReflectPytest.Library.SyncBus
import ReflectPytest.Services.Motor
import ReflectPytest.Services.State
import ReflectPytest.Services.Physics
import ReflectPytest.Services.Environment
import ReflectPytest.Services.Autonomous
import Mathlib.Data.List.Infix

set_option autoImplicit false

/-! # The application

The services of `AppServices` on one `MessageBus`: who subscribes to what, what each handler does to
the shared world and publishes, and the bus that results (`App.bus`). Its rank makes the synchronous
dispatch well founded, so `App.step` handles one event, a clock tick or an accepted datagram, to
completion.

The world also carries a history of publishes and clock snapshots, newest first. No handler reads
it. -/

namespace ReflectPytest

open SyncBus

/-! ## Services -/

inductive Service where
  | motor | kinematics | power | state | thermal | environment | autonomous | log | udpBridge
  deriving DecidableEq, Repr

namespace Service

/-- `AppServices`. -/
def all : List Service :=
  [motor, kinematics, power, state, thermal, environment, autonomous, log, udpBridge]

/-- The `Subscribes` list of a service. -/
def subscribes : Service → List MsgId
  | motor => [.motorSequence, .physicsTick]
  | kinematics => [.physicsTick, .kinematicsRequest, .motorStatus]
  | power => [.physicsTick, .powerRequest, .motorStatus]
  | state => [.stateRequest, .motorStatus]
  | thermal => [.physicsTick, .environmentData, .thermalRequest]
  | environment => [.environmentData, .internalEnvRequest]
  | autonomous => [.autoDriveCommand, .kinematicsData, .physicsTick, .powerData, .internalEnvData]
  | log => []
  | udpBridge => [.log, .stateData, .kinematicsData, .powerData, .thermalData, .environmentAck,
      .autoDriveStatus, .environmentRequest]

/-- The `Publishes` list of a service. -/
def publishes : Service → List MsgId
  | motor => [.motorStatus]
  | kinematics => [.kinematicsData]
  | power => [.powerData]
  | state => [.stateData, .physicsTick]
  | thermal => [.thermalData]
  | environment => [.environmentAck, .environmentRequest, .internalEnvData]
  | autonomous => [.motorSequence, .autoDriveStatus, .kinematicsRequest, .powerRequest,
      .internalEnvRequest]
  | log => [.log]
  | udpBridge => [.stateRequest, .motorSequence, .kinematicsRequest, .powerRequest, .thermalRequest,
      .autoDriveCommand, .environmentData]

/-- What the handler of a service for one message can publish. -/
def answers : Service → MsgId → List MsgId
  | motor, .motorSequence => [.motorStatus]
  | motor, .physicsTick => [.motorStatus]
  | kinematics, .kinematicsRequest => [.kinematicsData]
  | power, .powerRequest => [.powerData]
  | state, .stateRequest => [.stateData]
  | thermal, .thermalRequest => [.thermalData]
  | environment, .environmentData => [.environmentAck]
  | environment, .internalEnvRequest => [.internalEnvData, .environmentRequest]
  | autonomous, .autoDriveCommand => [.motorSequence]
  | autonomous, .internalEnvData => [.motorSequence]
  | autonomous, .kinematicsData => [.internalEnvRequest, .autoDriveStatus, .motorSequence]
  | autonomous, .physicsTick => [.kinematicsRequest, .powerRequest]
  | _, _ => []

/-- Every service stays within its declared `Publishes` list. -/
theorem answers_subset_publishes (h : Service) (id : MsgId) : h.answers id ⊆ h.publishes := by
  cases h <;> cases id <;> decide

end Service

/-- The height of the call tree below a message. -/
def MsgId.rank : MsgId → Nat
  | .physicsTick => 6
  | .kinematicsRequest => 5
  | .kinematicsData => 4
  | .internalEnvRequest => 3
  | .internalEnvData => 2
  | .autoDriveCommand => 2
  | .motorSequence => 1
  | .powerRequest => 1
  | .stateRequest => 1
  | .thermalRequest => 1
  | .environmentData => 1
  | _ => 0

theorem MsgId.rank_lt_of_mem_answers {h : Service} {id id' : MsgId} (hid : id' ∈ h.answers id) :
    id'.rank < id.rank := by
  cases h <;> cases id <;> simp only [Service.answers, List.not_mem_nil] at hid <;>
    simp only [List.mem_cons, List.not_mem_nil, or_false] at hid <;>
    rcases hid with rfl | rfl | rfl <;> decide

/-! ## The world -/

/-- What the history remembers. -/
inductive Record (F : Type) where
  | published (m : Msg F)
  | snapshot (tick : PhysicsTickPayload)
  deriving DecidableEq

/-- The state of all services, the steady clock, and the tick `clock_loop` has taken a snapshot for
    but not published yet. -/
structure World (F : Type) where
  motor : MotorService
  kinematics : KinematicsService F
  power : PowerService F
  state : StateService
  thermal : ThermalService F
  environment : EnvironmentService F
  autonomous : AutonomousService F
  now : Nat
  clockTick : Option PhysicsTickPayload
  history : List (Record F)

/-- What differs from one build to the next: the order in which the constructors of the tuple
    register their subscriptions, the library's `pow`, and the length of a tick. -/
structure Platform (F : Type) where
  order : List Service
  order_perm : order.Perm Service.all
  pow : F → F → F
  kTickUs : Nat := 10000

/-- libstdc++ constructs the elements of a tuple from the last to the first. -/
def Platform.libstdcxx {F : Type} (pow : F → F → F) : Platform F :=
  { order := Service.all.reverse, order_perm := List.reverse_perm _, pow := pow }

variable {F : Type} [FloatOps F]

/-- All services as their constructors leave them. -/
def World.init : World F :=
  { motor := .init, kinematics := .init, power := .init, state := .init, thermal := .init
    environment := .init, autonomous := .init, now := 0, clockTick := none, history := [] }

/-! ## Handlers -/

namespace App

/-- A handler that changes the world and publishes nothing. -/
abbrev update (run : World F → World F) : Code (World F) (Msg F) := .single fun w => (run w, [])

/-- `EnvironmentService` has nothing for the request and may ask outside for it. -/
def missesEnvironment (req : InternalEnvRequestPayload F) (w : World F) : Bool :=
  (w.environment.lookup req).isNone && w.environment.mayRequest w.now

/-- Answer an environment request from the cache, or pass it on. -/
def answerRequest (req : InternalEnvRequestPayload F) (w : World F) : World F × List (Msg F) :=
  (w, match w.environment.lookup req with
    | some p => [.internalEnvData ⟨p⟩]
    | none =>
        if w.environment.mayRequest w.now then [.environmentRequest ⟨⟨req.x, req.y⟩⟩] else [])

/-- Set `last_request_time_` to a time read earlier. -/
def setRequestTime (now : Nat) (w : World F) : World F :=
  { w with environment := { w.environment with lastRequestTime := now } }

/-- `AutonomousService` on a position sample, up to the environment request. -/
def requestStretch (kin : KinematicsPayload F) (w : World F) : World F × List (Msg F) :=
  if w.autonomous.idle then ({ w with autonomous := w.autonomous.rememberPosition kin }, [])
  else (w, messages (w.autonomous.requestEnvironment w.environment.deref kin))

/-- From there to its last publish, for the node bound before. -/
def checkStretch (idx : Nat) (kin : KinematicsPayload F) (w : World F) : World F × List (Msg F) :=
  let (s, es) := w.autonomous.checkNode w.environment.deref idx kin
  ({ w with autonomous := s }, messages es)

/-- The rest. -/
def rememberStretch (kin : KinematicsPayload F) (w : World F) : World F :=
  { w with autonomous := w.autonomous.rememberPosition kin }

/-- The `on_message` of each service. Only `AutonomousService` and `EnvironmentService` have
    handlers with code after a publish. -/
def code (pf : Platform F) : Service → Msg F → Code (World F) (Msg F)
  | .motor, .motorSequence cmd => .single fun w =>
      let (s, ms) := w.motor.onMotorSequence cmd
      ({ w with motor := s }, [.motorStatus ms])
  | .motor, .physicsTick tick => .single fun w =>
      let (s, ms) := w.motor.onPhysicsTick tick
      ({ w with motor := s }, ms.toList.map Msg.motorStatus)
  | .kinematics, .physicsTick tick =>
      update fun w => { w with kinematics := w.kinematics.onPhysicsTick tick }
  | .kinematics, .motorStatus ms =>
      update fun w => { w with kinematics := w.kinematics.onMotorStatus ms }
  | .kinematics, .kinematicsRequest => .single fun w =>
      (w, [.kinematicsData w.kinematics.onKinematicsRequest])
  | .power, .physicsTick tick =>
      update fun w => { w with power := w.power.onPhysicsTick pf.pow tick }
  | .power, .motorStatus ms => update fun w => { w with power := w.power.onMotorStatus ms }
  | .power, .powerRequest => .single fun w => (w, [.powerData w.power.onPowerRequest])
  | .state, .stateRequest => .single fun w => (w, [.stateData w.state.onStateRequest])
  | .state, .motorStatus ms => update fun w => { w with state := w.state.onMotorStatus ms }
  | .thermal, .physicsTick tick =>
      update fun w => { w with thermal := w.thermal.onPhysicsTick tick }
  | .thermal, .environmentData env =>
      update fun w => { w with thermal := w.thermal.onEnvironmentData env }
  | .thermal, .thermalRequest => .single fun w => (w, [.thermalData w.thermal.publishData])
  | .environment, .environmentData env => .single fun w =>
      let (s, ack) := w.environment.onEnvironmentData env
      ({ w with environment := s }, [.environmentAck ack])
  | .environment, .internalEnvRequest req =>
      .step (answerRequest req) fun w =>
        if missesEnvironment req w then update (setRequestTime w.now) else .done
  | .autonomous, .autoDriveCommand cmd => .single fun w =>
      let (s, es) := w.autonomous.onAutoDriveCommand w.environment.deref cmd
      ({ w with autonomous := s }, messages es)
  | .autonomous, .internalEnvData env => .single fun w =>
      let (s, es) := w.autonomous.onInternalEnvData w.environment.deref env
      ({ w with autonomous := s }, messages es)
  | .autonomous, .powerData power =>
      update fun w => { w with autonomous := w.autonomous.onPowerData power }
  | .autonomous, .kinematicsData kin =>
      .step (requestStretch kin) fun w =>
        if w.autonomous.idle then .done
        else .step (checkStretch w.autonomous.currentNodeIdx kin) fun _ =>
          update (rememberStretch kin)
  | .autonomous, .physicsTick _ => .single fun w => (w, messages w.autonomous.onPhysicsTick)
  | _, _ => .done

/-! ## What handlers publish -/

section Emits

open AutonomousService

/-- The identifiers of the messages a stretch of code publishes. -/
def PublishesOnly (ids : List MsgId) (es : List (Effect F)) : Prop :=
  ∀ m ∈ messages es, m.id ∈ ids

theorem publishesOnly_motorSequence (deref : EnvPtr → EnvironmentPayload F)
    (s : AutonomousService F) :
    PublishesOnly [.motorSequence]
      (if s.routeActive then s.publishMotorSequenceForCurrentNode deref else []) := by
  split <;> simp [PublishesOnly, publishMotorSequenceForCurrentNode, Msg.id]

theorem publishesOnly_onInternalEnvData (deref : EnvPtr → EnvironmentPayload F)
    (s : AutonomousService F) (env : InternalEnvDataPayload) :
    PublishesOnly [.motorSequence] (s.onInternalEnvData deref env).2 := by
  have htrack : ∀ s : AutonomousService F, ∀ r, messages (s.trackEnvironment r).2 = [] := by
    intro s r
    unfold trackEnvironment
    split_ifs <;> rfl
  simp only [PublishesOnly, onInternalEnvData, messages_append, htrack, List.nil_append]
  exact publishesOnly_motorSequence deref _

theorem publishesOnly_checkNode (deref : EnvPtr → EnvironmentPayload F) (s : AutonomousService F)
    (idx : Nat) (kin : KinematicsPayload F) :
    PublishesOnly [.autoDriveStatus, .motorSequence] (s.checkNode deref idx kin).2 := by
  have hrecord : messages (s.recordStats kin.positionM).2 = [] := by
    unfold recordStats
    dsimp only
    split_ifs <;> rfl
  have hadvance : ∀ s : AutonomousService F,
      PublishesOnly [.autoDriveStatus, .motorSequence] (s.advanceNode deref).2 := by
    intro s
    unfold advanceNode
    dsimp only
    split_ifs <;> simp [PublishesOnly, publishMotorSequenceForCurrentNode, Msg.id]
  unfold checkNode
  split_ifs
  · simp only [PublishesOnly, messages_append, hrecord, List.nil_append]
    exact hadvance _
  · simp [PublishesOnly]

/-- A handler publishes only what the table of answers lists for it. -/
theorem code_emits (pf : Platform F) (h : Service) (m : Msg F) :
    (code pf h m).Emits fun m' => m'.id ∈ h.answers m.id := by
  cases h <;> cases m <;>
    simp only [code, update, Code.emits_done, Code.emits_single, List.not_mem_nil, false_imp_iff,
      implies_true]
  case motor.motorSequence cmd => simp [Service.answers, Msg.id]
  case motor.physicsTick tick => simp [Service.answers, Msg.id]
  case kinematics.kinematicsRequest => simp [Service.answers, Msg.id]
  case power.powerRequest => simp [Service.answers, Msg.id]
  case state.stateRequest => simp [Service.answers, Msg.id]
  case thermal.thermalRequest => simp [Service.answers, Msg.id]
  case environment.environmentData env => simp [Service.answers, Msg.id]
  case environment.internalEnvRequest req =>
      refine ⟨fun w m' hm' => ?_, fun w => ?_⟩
      · unfold answerRequest at hm'
        dsimp only at hm'
        split at hm'
        · simp_all [Service.answers, Msg.id]
        · split at hm' <;> simp_all [Service.answers, Msg.id]
      · dsimp only
        split <;> simp
  case autonomous.autoDriveCommand cmd =>
      exact fun w => publishesOnly_motorSequence w.environment.deref _
  case autonomous.internalEnvData env =>
      exact fun w => publishesOnly_onInternalEnvData w.environment.deref _ env
  case autonomous.kinematicsData kin =>
      refine ⟨fun w m' hm' => ?_, fun w => ?_⟩
      · unfold requestStretch requestEnvironment at hm'
        split at hm'
        · simp at hm'
        · split at hm' <;> simp_all [Service.answers, Msg.id]
      · dsimp only
        split
        · trivial
        · exact ⟨fun w' m hm => List.mem_cons_of_mem _
              (publishesOnly_checkNode w'.environment.deref w'.autonomous _ kin m hm),
            fun _ => (Code.emits_single _ _).2 (by simp)⟩
  case autonomous.physicsTick tick =>
      intro w m' hm'
      simp only [onPhysicsTick] at hm'
      split at hm' <;> simp at hm'
      rcases hm' with rfl | rfl <;> simp [Service.answers, Msg.id]

end Emits

/-! ## The bus -/

/-- The message bus of the application. -/
def bus (pf : Platform F) : Bus Service (World F) (Msg F) where
  subscribers m := pf.order.filter fun h => decide (m.id ∈ h.subscribes)
  code := code pf
  record m w := { w with history := .published m :: w.history }
  rank m := m.id.rank
  emits_lower h m :=
    (code_emits pf h m).mono (fun _ hm' => MsgId.rank_lt_of_mem_answers hm')

theorem subscribers_perm (pf : Platform F) (m : Msg F) :
    ((bus pf).subscribers m).Perm (Service.all.filter fun h => decide (m.id ∈ h.subscribes)) :=
  pf.order_perm.filter _

theorem mem_subscribers {pf : Platform F} {m : Msg F} {h : Service} :
    h ∈ (bus pf).subscribers m ↔ m.id ∈ h.subscribes := by
  rw [(subscribers_perm pf m).mem_iff]
  cases h <;> simp [Service.all]

theorem subscribers_nodup (pf : Platform F) (m : Msg F) : ((bus pf).subscribers m).Nodup :=
  (subscribers_perm pf m).nodup_iff.2 (List.Nodup.filter _ (by decide))

/-- No handler touches the clock or the history. -/
theorem code_grows_outside (pf : Platform F) (h : Service) (m : Msg F) :
    (code pf h m).Grows fun w w' =>
      w'.history = w.history ∧ w'.now = w.now ∧ w'.clockTick = w.clockTick := by
  cases h <;> cases m <;>
    simp only [code, update, Code.grows_done, Code.grows_single, and_self, implies_true]
  case environment.internalEnvRequest req =>
      refine ⟨fun _ => ⟨rfl, rfl, rfl⟩, fun w => ?_⟩
      dsimp only
      split
      · exact (Code.grows_single _ _).2 fun _ => ⟨rfl, rfl, rfl⟩
      · trivial
  case autonomous.kinematicsData kin =>
      refine ⟨fun w => ?_, fun w => ?_⟩
      · unfold requestStretch
        split <;> exact ⟨rfl, rfl, rfl⟩
      · dsimp only
        split
        · trivial
        · exact ⟨fun _ => ⟨rfl, rfl, rfl⟩, fun _ =>
            (Code.grows_single _ _).2 fun _ => ⟨rfl, rfl, rfl⟩⟩

theorem code_grows_history (pf : Platform F) (h : Service) (m : Msg F) :
    (code pf h m).Grows fun w w' => w'.history = w.history :=
  (code_grows_outside pf h m).mono fun _ _ hsame => hsame.1

/-- The history only ever gets longer. -/
theorem bus_grows (pf : Platform F) :
    (bus pf).Grows fun w w' => w.history <:+ w'.history where
  refl _ := List.suffix_rfl
  trans _ _ _ h h' := h.trans h'
  record _ _ := List.suffix_cons _ _
  code h m := (code_grows_history pf h m).mono (fun _ _ he => he ▸ List.suffix_rfl)

/-- A publish takes no time, and leaves the clock thread where it is. -/
theorem publish_clock (pf : Platform F) (m : Msg F) (w : World F) :
    ((bus pf).publish m w).now = w.now ∧ ((bus pf).publish m w).clockTick = w.clockTick := by
  have hgrows : (bus pf).Grows fun w w' => w'.now = w.now ∧ w'.clockTick = w.clockTick :=
    { refl := fun _ => ⟨rfl, rfl⟩
      trans := fun _ _ _ h h' => ⟨h'.1.trans h.1, h'.2.trans h.2⟩
      record := fun _ _ => ⟨rfl, rfl⟩
      code := fun h m => (code_grows_outside pf h m).mono fun _ _ hsame => hsame.2 }
  exact hgrows.publish m w

/-! ## Events -/

/-- What the application reacts to, with the time it happens at. -/
inductive Event (F : Type) where
  | tick (now : Nat)
  | datagram (now : Nat) (m : Msg F)

/-- `publish_if_authorized` lets the message through. -/
def authorized (m : Msg F) : Bool := decide (m.id ∈ Service.udpBridge.publishes)

/-- The clock's snapshot. -/
def takeSnapshot (pf : Platform F) (w : World F) : World F × PhysicsTickPayload :=
  let tick := w.state.snapshot pf.kTickUs
  ({ w with history := .snapshot tick :: w.history }, tick)

/-- Handle one event to completion. -/
def step (pf : Platform F) (w : World F) : Event F → World F
  | .tick now =>
      let (w, tick) := takeSnapshot pf { w with now := now }
      (bus pf).publish (.physicsTick tick) w
  | .datagram now m =>
      if authorized m then (bus pf).publish m { w with now := now } else { w with now := now }

/-- Handle a sequence of events. -/
def run (pf : Platform F) (w : World F) (events : List (Event F)) : World F :=
  events.foldl (step pf) w

end App

end ReflectPytest
