import ReflectPytest.Sil.Locks
import ReflectPytest.Library.Races

set_option autoImplicit false

/-! # Data races

The fields of a service are guarded by its mutex, and the regions `EnvironmentService` hands out are
not: `AutonomousService` keeps a `shared_ptr` to one and reads through it under its own mutex, while
an update of the region overwrites it in place under the other. That is the only data race of the
process until `main` destroys the services (`reachable_races`), and it happens (`region_race`). -/

namespace ReflectPytest

open LockedBus LockedBus.System

namespace Sil

variable {F : Type}

/-! ## Memory -/

/-- A location: a field, or all fields of a service where none of them is raced on. The `static`
    tick counter of a service counts as one of its fields. Atomics are left out. -/
inductive Location where
  | motor | kinematics | power | state | thermal | autonomous
  /-- `cache_` of `EnvironmentService` and the regions it points to. -/
  | cache
  | lastRequestTime
  /-- `queue_` and `running_` of `LogService`. -/
  | log
  /-- `peer_` of `UdpBridge`. -/
  | peer

/-- The mutex that guards a field. -/
def Location.mutex : Location → Service
  | .motor => .motor
  | .kinematics => .kinematics
  | .power => .power
  | .state => .state
  | .thermal => .thermal
  | .autonomous => .autonomous
  | .cache | .lastRequestTime => .environment
  | .log => .log
  | .peer => .udpBridge

/-- Take one field from another state. -/
def copyField : Location → State F → State F → State F
  | .motor, s, v => { s with app := { s.app with motor := v.app.motor } }
  | .kinematics, s, v =>
      { s with
        app := { s.app with kinematics := v.app.kinematics }
        kinematicsCount := v.kinematicsCount }
  | .power, s, v =>
      { s with app := { s.app with power := v.app.power }, powerCount := v.powerCount }
  | .state, s, v => { s with app := { s.app with state := v.app.state } }
  | .thermal, s, v =>
      { s with app := { s.app with thermal := v.app.thermal }, thermalCount := v.thermalCount }
  | .autonomous, s, v => { s with app := { s.app with autonomous := v.app.autonomous } }
  | .cache, s, v =>
      { s with app := { s.app with
          environment := { s.app.environment with cache := v.app.environment.cache } } }
  | .lastRequestTime, s, v =>
      { s with app := { s.app with environment :=
          { s.app.environment with lastRequestTime := v.app.environment.lastRequestTime } } }
  | .log, s, v => { s with log := v.log }
  | .peer, s, v => { s with peer := v.peer }

/-- The fields of the services. -/
def memory : Memory Location (State F) where
  copy := copyField
  copy_self x s := by cases x <;> rfl
  copy_copy x s v := by cases x <;> rfl

/-- The action does not touch the field, and what follows does not depend on it. -/
structure Apart (x : Location) (action : State F → State F) (next : State F → Code F) : Prop where
  keeps : memory.Keeps x action
  ignores : memory.Ignores x action
  next : ∀ s v, next (memory.copy x s v) = next s

variable [FloatOps F]

/-- The region `current_env_ptr_` points to in the first state, if there is one, reads the same in
    both. -/
def SameTarget (s v : State F) : Prop :=
  ∀ p ∈ s.app.autonomous.currentEnvPtr, v.app.environment.deref p = s.app.environment.deref p

/-- The action writes no region, and it and what follows depend on no region but the one
    `current_env_ptr_` points to. -/
structure Follows (action : State F → State F) (next : State F → Code F) : Prop where
  keeps : memory.Keeps .cache action
  ignores : ∀ s v, SameTarget s v →
    memory.copy .cache (action (memory.copy .cache s v)) (action s) = action s
  next : ∀ s v, SameTarget s v → next (memory.copy .cache s v) = next s

/-- What may be touched under the mutexes held: the fields they guard; and under the mutex of
    `AutonomousService` its region may be read. What `main` does to the services when it destroys
    them is left open. -/
def licence : License Thread (State F) (Call F) Service := fun t held action next =>
  t = .main ∨ ∀ x, x.mutex ∉ held →
    Apart x action next ∨ x = .cache ∧ .autonomous ∈ held ∧ Follows action next

theorem licence_of_apart {t : Thread} {held : List Service} {action : State F → State F}
    {next : State F → Code F} (h : ∀ x : Location, x.mutex ∉ held → Apart x action next) :
    licence t held action next :=
  .inr fun x hx => .inl (h x hx)

/-- Under the mutex of a service its own fields may be touched. -/
theorem licence_own {t : Thread} {h : Service} {held : List Service} {action : State F → State F}
    {next : State F → Code F} (hown : ∀ x : Location, x.mutex ≠ h → Apart x action next) :
    licence t (h :: held) action next :=
  licence_of_apart fun x hx => hown x fun heq => hx (heq ▸ List.mem_cons_self)

/-- Under that of `AutonomousService`, its region may be read, too. -/
theorem licence_autonomous {t : Thread} {held : List Service} {action : State F → State F}
    {next : State F → Code F} (hregion : .environment ∉ held → Follows action next)
    (hown : ∀ x : Location, x.mutex ≠ .autonomous → x ≠ .cache → Apart x action next) :
    licence t (.autonomous :: held) action next := by
  refine .inr fun x hx => ?_
  have hne : x.mutex ≠ .autonomous := fun heq => hx (heq ▸ List.mem_cons_self)
  by_cases hcache : x = .cache
  · subst hcache
    exact .inr ⟨rfl, List.mem_cons_self, hregion fun hmem => hx (List.mem_cons_of_mem _ hmem)⟩
  · exact .inl (hown x hne hcache)

/-! ## Handlers -/

omit [FloatOps F] in
theorem send_apart (payload : Call F) (t : Thread) {next : State F → Code F} (x : Location)
    (hx : x ≠ .peer) (hnext : ∀ s v, next (memory.copy x s v) = next s) :
    Apart x (send payload t) next := by
  have hpeer : ∀ s v : State F, (copyField x s v).peer = s.peer := by
    intro s v
    cases x <;> first | exact absurd rfl hx | rfl
  refine ⟨fun s => ?_, fun s v => ?_, hnext⟩
  · show copyField x s (send payload t s) = s
    unfold send
    split <;> cases x <;> rfl
  · show copyField x (send payload t (copyField x s v)) (send payload t s) = send payload t s
    unfold send
    rw [hpeer]
    split <;> cases x <;> rfl

theorem forwardToUdp_guards (t : Thread) (c : Call F) (held : List Service) :
    (forwardToUdp c).Guards licence t held := by
  refine ⟨licence_own fun x hx => send_apart c t x ?_ fun _ _ => rfl, fun _ => trivial⟩
  rintro rfl
  exact hx rfl

theorem environment_guards (t : Thread) (req : InternalEnvRequestPayload F)
    (held : List Service) : (Environment.onInternalEnvRequest req).Guards licence t held := by
  refine ⟨licence_own fun x hx => ?_, fun s => ?_⟩
  · cases x <;>
      first | exact absurd rfl hx | exact ⟨fun _ => rfl, fun _ _ => rfl, fun _ _ => rfl⟩
  · dsimp only
    split
    · trivial
    · split
      · refine ⟨licence_own fun x hx => ?_, fun _ => trivial⟩
        cases x <;>
          first | exact absurd rfl hx | exact ⟨fun _ => rfl, fun _ _ => rfl, fun _ _ => rfl⟩
      · trivial

/-- Every handler outside `AutonomousService` touches the fields of its own service only. -/
theorem onMessage_guards (pf : Platform F) (t : Thread) (h : Service) (hh : h ≠ .udpBridge)
    (hauto : h ≠ .autonomous) (m : Msg F) (held : List Service) :
    (onMessage pf h m).Guards licence t held := by
  cases h <;> cases m <;> try trivial
  case environment.internalEnvRequest req => exact environment_guards t req held
  all_goals
    simp only [onMessage, Motor.onMotorSequence, Motor.onPhysicsTick, Kinematics.onPhysicsTick,
      Kinematics.onMotorStatus, Kinematics.onKinematicsRequest, Power.onPhysicsTick,
      Power.onMotorStatus, Power.onPowerRequest, Thermal.onPhysicsTick, Thermal.onEnvironmentData,
      Thermal.onThermalRequest, StateService.onStateRequest, StateService.onMotorStatus,
      Environment.onEnvironmentData, update, look, Prog.read, Prog.Guards,
      Prog.guards_calls, implies_true, and_true]
  -- Every action is in the fields of the service; the tick counters are a second one.
  all_goals first
    | refine licence_own fun x hx => ?_
    | refine ⟨licence_own fun x hx => ?_, fun _ => licence_own fun x hx => ?_⟩
  all_goals
    cases x <;>
      first | exact absurd rfl hx | exact ⟨fun _ => rfl, fun _ _ => rfl, fun _ _ => rfl⟩

/-! ### What `AutonomousService` reads through its pointer -/

section Target

variable {deref deref' : EnvPtr → EnvironmentPayload F} {s : AutonomousService F}

theorem steepIncline_target (h : ∀ p ∈ s.currentEnvPtr, deref' p = deref p) :
    Autonomous.steepIncline deref' s = Autonomous.steepIncline deref s := by
  unfold Autonomous.steepIncline
  cases hp : s.currentEnvPtr with
  | none => rfl
  | some p => rw [Option.any_some, Option.any_some, h p hp]

theorem publishMotorSequence_target (h : ∀ p ∈ s.currentEnvPtr, deref' p = deref p) :
    s.publishMotorSequenceForCurrentNode deref' = s.publishMotorSequenceForCurrentNode deref := by
  have hspeed : s.targetSpeed deref' = s.targetSpeed deref := by
    unfold AutonomousService.targetSpeed
    cases hp : s.currentEnvPtr with
    | none => cases s.cmd.useEnvironmentTuning <;> rfl
    | some p => cases s.cmd.useEnvironmentTuning <;> simp only [h p hp]
  simp only [AutonomousService.publishMotorSequenceForCurrentNode,
    AutonomousService.motorSequence, hspeed]

theorem sequenceCalls_target (h : ∀ p ∈ s.currentEnvPtr, deref' p = deref p) :
    Autonomous.sequenceCalls deref' s = Autonomous.sequenceCalls deref s := by
  simp only [Autonomous.sequenceCalls, steepIncline_target h, publishMotorSequence_target h]

theorem requestEnvironment_target (h : ∀ p ∈ s.currentEnvPtr, deref' p = deref p)
    (kin : KinematicsPayload F) :
    s.requestEnvironment deref' kin = s.requestEnvironment deref kin := by
  unfold AutonomousService.requestEnvironment AutonomousService.needsEnvironment
    AutonomousService.outsideEnvironment
  cases hp : s.currentEnvPtr with
  | none => rfl
  | some p => simp only [h p hp]

theorem advanceNode_target (h : ∀ p ∈ s.currentEnvPtr, deref' p = deref p) :
    s.advanceNode deref' = s.advanceNode deref := by
  unfold AutonomousService.advanceNode
  dsimp only
  split
  · rfl
  · exact congrArg (Prod.mk _) (publishMotorSequence_target h)

theorem checkNode_target (h : ∀ p ∈ s.currentEnvPtr, deref' p = deref p) (idx : Nat)
    (kin : KinematicsPayload F) : s.checkNode deref' idx kin = s.checkNode deref idx kin := by
  have hrecord : (s.recordStats kin.positionM).1.currentEnvPtr = s.currentEnvPtr := by
    unfold AutonomousService.recordStats
    dsimp only
    split <;> rfl
  unfold AutonomousService.checkNode
  split
  · dsimp only
    rw [advanceNode_target (hrecord ▸ h)]
  · rfl

theorem checkCalls_target (h : ∀ p ∈ s.currentEnvPtr, deref' p = deref p) (idx : Nat)
    (kin : KinematicsPayload F) :
    Autonomous.checkCalls deref' s idx kin = Autonomous.checkCalls deref s idx kin := by
  have hptr : ∀ p ∈ (s.checkNode deref idx kin).1.currentEnvPtr, deref' p = deref p :=
    AutonomousService.checkNode_currentEnvPtr deref s idx kin ▸ h
  simp only [Autonomous.checkCalls, checkNode_target h, steepIncline_target hptr]

end Target

/-- The first stretch of a sample changes `AutonomousService` alone. -/
theorem requestStretch_fst (kin : KinematicsPayload F) (w : World F) :
    (App.requestStretch kin w).1 = { w with
      autonomous := if w.autonomous.idle then w.autonomous.rememberPosition kin
        else w.autonomous } := by
  unfold App.requestStretch
  split <;> rfl

/-- What it publishes depends on that service and the regions. -/
theorem requestStretch_snd (kin : KinematicsPayload F) (w : World F) :
    (App.requestStretch kin w).2 = if w.autonomous.idle then []
      else messages (w.autonomous.requestEnvironment w.environment.deref kin) := by
  unfold App.requestStretch
  split <;> rfl

/-! ### The handlers of `AutonomousService` -/

/-- In a state with another cache `AutonomousService` reads the same, if its region is the same. -/
theorem SameTarget.copy {s v : State F} (h : SameTarget s v) :
    (memory.copy .cache s v).app.autonomous = s.app.autonomous ∧
      ∀ p ∈ s.app.autonomous.currentEnvPtr,
        (memory.copy .cache s v).app.environment.deref p = s.app.environment.deref p :=
  ⟨rfl, h⟩

theorem autonomous_onAutoDriveCommand_guards (t : Thread) (cmd : AutoDriveCommandPayload F)
    (held : List Service) : (Autonomous.onAutoDriveCommand cmd).Guards licence t held := by
  refine ⟨licence_autonomous (fun _ => ⟨fun _ => rfl, fun _ _ _ => rfl, fun s v hsame => ?_⟩)
    fun x hx hcache => ?_, fun s => Prog.guards_calls.2 trivial⟩
  · -- The pointer has been reset, so that no region is read.
    have hcalls : Autonomous.sequenceCalls (memory.copy .cache s v).app.environment.deref
        (s.app.autonomous.acceptCommand cmd) =
          Autonomous.sequenceCalls s.app.environment.deref (s.app.autonomous.acceptCommand cmd) :=
      sequenceCalls_target nofun
    simp only [hsame.copy.1, hcalls]
  · cases x <;>
      first
      | exact absurd rfl hx
      | exact absurd rfl hcache
      | exact ⟨fun _ => rfl, fun _ _ => rfl, fun _ _ => rfl⟩

/-- `InternalEnvData` is published under the mutex that guards the regions. -/
theorem autonomous_onInternalEnvData_guards (t : Thread) (env : InternalEnvDataPayload)
    {held : List Service} (hheld : .environment ∈ held) :
    (Autonomous.onInternalEnvData (F := F) env).Guards licence t held := by
  refine ⟨licence_autonomous (fun hnot => absurd hheld hnot) fun x hx hcache => ?_,
    fun s => Prog.guards_calls.2 trivial⟩
  cases x <;>
    first
    | exact absurd rfl hx
    | exact absurd rfl hcache
    | exact ⟨fun _ => rfl, fun _ _ => rfl, fun _ _ => rfl⟩

theorem autonomous_onKinematicsData_guards (t : Thread) (kin : KinematicsPayload F)
    (held : List Service) : (Autonomous.onKinematicsData kin).Guards licence t held := by
  simp only [Autonomous.onKinematicsData, requestStretch_fst, requestStretch_snd, update,
    Prog.Guards]
  refine ⟨licence_autonomous (fun _ => ⟨fun _ => rfl, fun _ _ _ => rfl, fun s v hsame => ?_⟩)
    fun x hx hcache => ?_, fun s => ?_⟩
  · obtain ⟨hauto, hptr⟩ := hsame.copy
    simp only [hauto, requestEnvironment_target hptr]
  · cases x <;>
      first
      | exact absurd rfl hx
      | exact absurd rfl hcache
      | exact ⟨fun _ => rfl, fun _ _ => rfl, fun _ _ => rfl⟩
  · split
    · trivial
    · simp only [Prog.guards_calls, Prog.Guards, and_true, implies_true]
      refine ⟨licence_autonomous (fun _ => ⟨fun _ => rfl, fun s v hsame => ?_,
        fun s v hsame => ?_⟩) fun x hx hcache => ?_, fun s' => ?_⟩
      · obtain ⟨hauto, hptr⟩ := hsame.copy
        simp only [App.checkStretch, hauto, checkNode_target hptr]
        rfl
      · obtain ⟨hauto, hptr⟩ := hsame.copy
        simp only [hauto, checkCalls_target hptr]
      · cases x <;>
          first
          | exact absurd rfl hx
          | exact absurd rfl hcache
          | exact ⟨fun _ => rfl, fun _ _ => rfl, fun _ _ => rfl⟩
      · -- Remembering the position reads no region.
        refine licence_own fun x hx => ?_
        cases x <;>
          first | exact absurd rfl hx | exact ⟨fun _ => rfl, fun _ _ => rfl, fun _ _ => rfl⟩

theorem autonomous_guards (pf : Platform F) (t : Thread) (m : Msg F) {held : List Service}
    (hheld : allows (.message m) held) :
    (onMessage pf .autonomous m).Guards licence t held := by
  cases m <;> try trivial
  case autoDriveCommand cmd => exact autonomous_onAutoDriveCommand_guards t cmd held
  case internalEnvData env => exact autonomous_onInternalEnvData_guards t env (hheld.2.2 rfl)
  case kinematicsData kin => exact autonomous_onKinematicsData_guards t kin held
  all_goals
    simp only [onMessage, Autonomous.onPowerData, Autonomous.onPhysicsTick, update, look,
      Prog.read, Prog.Guards, Prog.guards_calls, implies_true, and_true]
    refine licence_own fun x hx => ?_
    cases x <;>
      first | exact absurd rfl hx | exact ⟨fun _ => rfl, fun _ _ => rfl, fun _ _ => rfl⟩

theorem code_guards (pf : Platform F) (t : Thread) (h : Service) {c : Call F}
    {held : List Service} (hheld : allows c held) : (code pf h c).Guards licence t held := by
  cases c with
  | message m =>
      by_cases hbridge : h = .udpBridge
      · subst hbridge
        show (onMessage pf .udpBridge m).Guards licence t held
        rw [onMessage_udpBridge]
        exact forwardToUdp_guards t _ held
      · by_cases hauto : h = .autonomous
        · exact hauto ▸ autonomous_guards pf t m hheld
        · exact onMessage_guards pf t h hbridge hauto m held
  | logData p =>
      simp only [code]
      split
      · exact forwardToUdp_guards t _ held
      · trivial
  | log p =>
      simp only [code]
      split
      · refine ⟨licence_own fun x hx => ?_, fun _ => trivial⟩
        cases x <;>
          first | exact absurd rfl hx | exact ⟨fun _ => rfl, fun _ _ => rfl, fun _ _ => rfl⟩
      · trivial

/-! ## Threads -/

/-- An action on nothing but the flags and joins of the shutdown. -/
theorem exit_guards (t : Thread) (held : List Service) :
    (exit : Code F).Guards licence t held := by
  refine ⟨licence_of_apart fun x _ => ?_, fun _ => trivial⟩
  cases x <;> exact ⟨fun _ => rfl, fun _ _ => rfl, fun _ _ => rfl⟩

/-- Nothing is asked of code that `main` runs by itself. -/
theorem main_guards {p : Code F} {held : List Service} : p.Guards licence .main held := by
  induction p generalizing held with
  | done => trivial
  | lock _ _ ih | unlock _ _ ih | await _ _ ih | call _ _ ih => exact ih
  | act _ _ ih => exact ⟨.inl rfl, fun s => ih s⟩

theorem begins_guards (pf : Platform F) (order : List Service) {s s' : State F} {a : Activity F}
    {p : Code F} (h : begins pf order s a = some (s', p)) : p.Guards licence a.thread [] := by
  cases begun_of_begins h with
  | clock =>
      refine ⟨licence_of_apart fun x _ => ?_,
        fun start => ⟨licence_own fun x hx => ?_, fun s => ?_⟩⟩
      · cases x <;> exact ⟨fun _ => rfl, fun _ _ => rfl, fun _ _ => rfl⟩
      · cases x <;>
          first | exact absurd rfl hx | exact ⟨fun _ => rfl, fun _ _ => rfl, fun _ _ => rfl⟩
      · refine ⟨licence_of_apart fun x _ => ?_, fun stop => ?_⟩
        · cases x <;> exact ⟨fun _ => rfl, fun _ _ => rfl, fun _ _ => rfl⟩
        · dsimp only
          split <;> trivial
  | rx hauth =>
      refine ⟨licence_own fun x hx => ?_, fun _ => Prog.guards_calls.2 trivial⟩
      cases x <;>
        first | exact absurd rfl hx | exact ⟨fun _ => rfl, fun _ _ => rfl, fun _ _ => rfl⟩
  | worker =>
      refine ⟨licence_own fun x hx => ?_, fun s => ?_⟩
      · cases x <;>
          first | exact absurd rfl hx | exact ⟨fun _ => rfl, fun _ _ => rfl, fun _ _ => rfl⟩
      · dsimp only
        split
        · split
          · exact exit_guards _ []
          · refine ⟨licence_own fun x hx => ?_, fun _ => Prog.guards_calls.2 trivial⟩
            cases x <;>
              first | exact absurd rfl hx | exact ⟨fun _ => rfl, fun _ _ => rfl, fun _ _ => rfl⟩
        · trivial
  | exit => exact exit_guards _ []
  | main => exact main_guards
  | heartbeat | signal | wait _ => trivial

theorem system_guarded (pf : Platform F) (order : List Service) :
    (system pf order).Guarded licence allows where
  code _ hheld := code_guards pf _ _ hheld
  start := by
    rintro t s s' p ⟨a, rfl, h⟩
    exact begins_guards pf order h

/-! ## Races -/

/-- Recording a publish is not a step of the program. -/
theorem record_apart (pf : Platform F) (order : List Service) (c : Call F) (x : Location) :
    memory.Keeps x ((system pf order).record c) ∧
      memory.Ignores x ((system pf order).record c) := by
  cases c <;> cases x <;> exact ⟨fun _ => rfl, fun _ _ => rfl⟩

/-- The thread reads a region through `current_env_ptr_`, and nothing else of the cache: it notices
    other contents only if they differ in that region. -/
def ReadsTarget (pf : Platform F) (order : List Service) (t : Thread) (f : SilFrame F)
    (s : State F) : Prop :=
  ∃ p, s.app.autonomous.currentEnvPtr = some p ∧
    ∀ v, f.Notices (system pf order) memory t .cache s v →
      v.app.environment.deref p ≠ s.app.environment.deref p

/-- What is about to happen to a field happens under its mutex, or it is a read of a region under
    that of `AutonomousService`. -/
structure UnderMutex (pf : Platform F) (order : List Service) (c : SilConfig F) (t : Thread)
    (f : SilFrame F) (x : Location) : Prop where
  writes : f.Writes (system pf order) memory t x c.world → x.mutex ∈ c.held t
  reads : f.Reads (system pf order) memory t x c.world → x.mutex ∉ c.held t →
    x = .cache ∧ .autonomous ∈ c.held t ∧ ReadsTarget pf order t f c.world

theorem reachable_underMutex (pf : Platform F) (order : List Service) {c : SilConfig F}
    (hc : Reachable pf order c) (hmain : c.stack .main = []) {t : Thread} {f : SilFrame F}
    {rest : List (SilFrame F)} (htop : c.stack t = f :: rest) (x : Location) :
    UnderMutex pf order c t f x := by
  have hlicence : ∀ {o action next}, f = .run o (.act action next) →
      ∀ x : Location, x.mutex ∉ c.held t → Apart x (action t) next ∨
        x = .cache ∧ .autonomous ∈ c.held t ∧ Follows (action t) next := by
    rintro o action next rfl
    have hlicensed := (system_guarded pf order).licensed (system_disciplined pf order) hc htop
    refine hlicensed.resolve_left ?_
    rintro rfl
    exact nomatch hmain.symm.trans htop
  constructor
  · intro hwrites
    by_contra hx
    obtain ⟨o, action, next, rfl⟩ := act_of_access (record_apart pf order) (.inl hwrites)
    rcases hlicence rfl x hx with hapart | ⟨rfl, -, hfollows⟩
    · exact hwrites (hapart.keeps _)
    · exact hwrites (hfollows.keeps _)
  · intro hreads hx
    obtain ⟨o, action, next, rfl⟩ := act_of_access (record_apart pf order) (.inr hreads)
    rcases hlicence rfl x hx with hapart | ⟨rfl, hauto, hfollows⟩
    · obtain ⟨v, hframes | hworld⟩ := hreads
      · exact absurd (congrArg (fun p => [Frame.run o p]) (hapart.next _ v)) hframes
      · exact absurd (hapart.ignores _ v) hworld
    · have hdiffers : ∀ v, (Frame.run o (.act action next)).Notices (system pf order) memory t
          .cache c.world v → ¬ SameTarget c.world v := by
        rintro v (hframes | hworld) hsame
        · exact hframes (congrArg (fun p => [Frame.run o p]) (hfollows.next _ v hsame))
        · exact hworld (hfollows.ignores _ v hsame)
      obtain ⟨v, hv⟩ := hreads
      have htarget := hdiffers v hv
      cases hp : c.world.app.autonomous.currentEnvPtr with
      | none => exact absurd (fun p hmem => nomatch hp.symm.trans hmem) htarget
      | some p =>
          refine ⟨rfl, hauto, p, hp, fun v' hv' heq => hdiffers v' hv' fun q hq => ?_⟩
          obtain rfl : p = q := Option.some.inj (hp.symm.trans hq)
          exact heq

/-- **The only data race** of the process is on the regions. In every reachable configuration in
    which `main` is not destroying the services, every thread accesses a field under its mutex, or
    reads a region through `current_env_ptr_` under the mutex of `AutonomousService`. So where one
    thread is about to write a field and another one to access it, the first overwrites a region
    under the mutex of `EnvironmentService` and the other one reads one like that. -/
theorem reachable_races (pf : Platform F) (order : List Service) {c : SilConfig F}
    (hc : Reachable pf order c) (hmain : c.stack .main = []) :
    (∀ t f rest, c.stack t = f :: rest → ∀ x, UnderMutex pf order c t f x) ∧
    ∀ x t t', Races (system pf order) memory c x t t' →
      x = .cache ∧ .environment ∈ c.held t ∧ .environment ∉ c.held t' ∧
        .autonomous ∈ c.held t' ∧ ∃ f rest, c.stack t' = f :: rest ∧
          ReadsTarget pf order t' f c.world := by
  have hunder : ∀ t f rest, c.stack t = f :: rest → ∀ x, UnderMutex pf order c t f x :=
    fun t f rest htop => reachable_underMutex pf order hc hmain htop
  refine ⟨hunder, fun x t t' hrace => ?_⟩
  obtain ⟨hne, f, rest, f', rest', htop, htop', -, -, hwrites, haccess⟩ := hrace
  have horderly := (system_disciplined pf order).run (orderly_idle _ _ _ _) hc
  have hheld := (hunder t f rest htop x).writes hwrites
  have hnot : x.mutex ∉ c.held t' := horderly.excludes t t' x.mutex hne.symm hheld
  rcases haccess with hwrites' | hreads'
  · exact absurd ((hunder t' f' rest' htop' x).writes hwrites') hnot
  · obtain ⟨rfl, hauto, htarget⟩ := (hunder t' f' rest' htop' x).reads hreads' hnot
    exact ⟨rfl, hheld, hnot, hauto, f', rest', htop', htarget⟩

/-! ### The race happens -/

/-- The calls a frame is about to make one after another. -/
def nextCalls : List (SilFrame F) → List (Call F)
  | .run _ p :: _ => go p
  | _ => []
where
  go : Code F → List (Call F)
    | .call c next => c :: go next
    | _ => []

/-- The threads are about to race on the regions, told from the cache and the calls that follow. -/
def catches [DecidableEq F] (pf : Platform F) (order : List Service) (c : SilConfig F)
    (t t' : Thread) : Bool :=
  match c.stack t, c.stack t' with
  | f :: _, f' :: _ =>
      let written := (f.step (system pf order) t c.world).1
      let overwritten := memory.copy .cache c.world written
      decide ((system pf order).Enabled c t f ∧ (system pf order).Enabled c t' f') &&
        decide (overwritten.app.environment.cache ≠ c.world.app.environment.cache) &&
        decide (nextCalls (f'.step (system pf order) t' overwritten).2 ≠
          nextCalls (f'.step (system pf order) t' c.world).2)
  | _, _ => false

theorem races_of_catches [DecidableEq F] {pf : Platform F} {order : List Service}
    {c : SilConfig F} {t t' : Thread} (hne : t ≠ t') (h : catches pf order c t t' = true) :
    Races (system pf order) memory c .cache t t' := by
  unfold catches at h
  split at h
  case h_2 => exact absurd h Bool.false_ne_true
  case h_1 f rest f' rest' hf hf' =>
      simp only [Bool.and_eq_true, decide_eq_true_eq] at h
      obtain ⟨⟨⟨hready, hready'⟩, hcache⟩, hcalls⟩ := h
      refine ⟨hne, f, rest, f', rest', hf, hf', hready, hready', ?_,
        .inr ⟨(f.step (system pf order) t c.world).1, .inl ?_⟩⟩
      · exact fun heq => hcache (congrArg (fun s : State F => s.app.environment.cache) heq)
      · exact fun heq => hcalls (congrArg nextCalls heq)

/-- `AutonomousService` has picked up region 1 and is about to send the motor command of a node in
    it when a datagram changes the speed limit of the region. -/
theorem region_race : ∃ c : SilConfig ℚ,
    Reachable (.libstdcxx fun _ _ => 0) Service.all c ∧
      Races (system (.libstdcxx fun _ _ => 0) Service.all) memory c .cache .rx .clock ∧
      .environment ∈ c.held .rx ∧ .autonomous ∈ c.held .clock ∧
      ∃ f rest, c.stack .clock = f :: rest ∧
        ReadsTarget (.libstdcxx fun _ _ => 0) Service.all .clock f c.world := by
  let peer : SockAddr := ⟨2130706433, 40000⟩
  let region (limit : ℚ) : EnvironmentPayload ℚ := ⟨1, ⟨⟨0, 0⟩, ⟨10, 0⟩⟩, 20, 0, 1, limit⟩
  let drive : AutoDriveCommandPayload ℚ :=
    { mode := .performance, pGain := 1, useEnvironmentTuning := true, numNodes := 2
      route := StdArray.set (fun _ => ⟨⟨0, 0⟩, 1000⟩) 1 ⟨⟨8, 0⟩, 1000⟩ }
  let schedule : List (Move ℚ) :=
    [.start (.rx peer (some (.environmentData (region 1000)))), .advance .rx 27,
      .start (.rx peer (some (.autoDriveCommand drive))), .advance .rx 50,
      .start .clock, .advance .clock 74,
      .start (.rx peer (some (.environmentData (region 2000)))), .advance .rx 6]
  have hcatches : ((play (.libstdcxx fun _ _ => 0) Service.all (idle .init) schedule).map
      fun c => (catches (.libstdcxx fun _ _ => 0) Service.all c .rx .clock,
        (c.stack .main).isEmpty)) = some (true, true) := by
    decide +kernel
  obtain ⟨c, hplay, hc⟩ := Option.map_eq_some_iff.1 hcatches
  obtain ⟨hcatch, hmain⟩ := Prod.mk.inj hc
  have hrace := races_of_catches (by decide) hcatch
  have hall := reachable_races (.libstdcxx fun _ _ => 0) Service.all (play_run hplay)
    (List.isEmpty_iff.1 hmain)
  obtain ⟨-, henv, -, hauto, f, rest, htop, htarget⟩ := hall.2 _ _ _ hrace
  exact ⟨c, play_run hplay, hrace, henv, hauto, f, rest, htop, htarget⟩

end Sil

end ReflectPytest
