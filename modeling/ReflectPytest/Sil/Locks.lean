import ReflectPytest.Sil.Threads
import ReflectPytest.Library.LockOrder

set_option autoImplicit false

/-! # No deadlock

`AutonomousService` and `EnvironmentService` publish to each other with their mutexes held, in both
directions. The way back is only taken under the first of the two: `InternalEnvData` is published
for an `InternalEnvRequest` and for nothing else, and only `AutonomousService` publishes that, with
its recursive `mu_` held. `allows` says so, and for all other calls which mutexes may be held below
them. -/

namespace ReflectPytest

open LockedBus LockedBus.System

namespace Sil

variable {F : Type} [FloatOps F]

/-- The order on the mutexes. -/
@[simp] def mutexRank : Service → Nat
  | .autonomous => 0
  | .environment => 1
  | .motor => 2
  | .kinematics | .power | .state | .thermal => 3
  | .log | .udpBridge => 4

theorem mutexRank_lt (l : Service) : mutexRank l < 5 := by
  cases l <;> decide

/-- The mutexes held when a message is published rank below this. -/
@[simp] def bound : MsgId → Nat
  | .physicsTick | .stateRequest | .thermalRequest | .environmentData | .autoDriveCommand => 0
  | .kinematicsRequest | .kinematicsData | .powerRequest | .powerData | .internalEnvRequest => 1
  | .motorSequence | .internalEnvData => 2
  | .motorStatus => 3
  | _ => 4

/-- The message is only published by `AutonomousService` or on its request. -/
@[simp] def inner (id : MsgId) : Prop := id = .internalEnvRequest ∨ id = .internalEnvData

/-- The mutexes that may be held when a call is made, and those that are. -/
def allows (c : Call F) (held : List Service) : Prop :=
  Below mutexRank (bound c.id) held ∧ (inner c.id → Service.autonomous ∈ held) ∧
    (c.id = .internalEnvData → Service.environment ∈ held)

omit [FloatOps F] in
/-- Calls under identifiers that are all allowed. -/
theorem CallsOnly.allowed {ids : List MsgId} {cs : List (Call F)} (hcs : CallsOnly ids cs)
    {held : List Service}
    (hids : ∀ id ∈ ids, Below mutexRank (bound id) held ∧ (inner id → .autonomous ∈ held) ∧
      (id = .internalEnvData → .environment ∈ held)) :
    ∀ c ∈ cs, allows c held :=
  fun c hc => hids c.id (hcs c hc)

section

variable {pf : Platform F} {order : List Service} {held : List Service}

@[simp] theorem system_recursive : (system pf order).recursive = recursive := rfl

/-- `AutonomousService` may lock its mutex with nothing held but itself. -/
theorem mayLock_autonomous (h : Below mutexRank 1 held) :
    (system pf order).MayLock mutexRank .autonomous held := by
  cases held with
  | nil => exact .inl below_nil
  | cons l held =>
      refine .inr ⟨rfl, ?_⟩
      have hl : mutexRank l < 1 := h l List.mem_cons_self
      cases l <;> first | exact List.mem_cons_self | exact absurd hl (by decide)

/-! ## Handlers -/

theorem motor_onPhysicsTick_locks (tick : PhysicsTickPayload) (h : Below mutexRank 0 held) :
    (system pf order).Locks mutexRank allows (Motor.onPhysicsTick tick) held held := by
  refine ⟨.inl (h.mono (Nat.zero_le _)), fun s => ?_⟩
  have hallowed : ∀ c ∈ (s.app.motor.onPhysicsTick tick).2.elim [] (Motor.advanceCalls (F := F)),
      allows c (.motor :: held) := by
    refine (callsOnly_advance _).allowed ?_
    simp [h.mono]
  simpa using hallowed

theorem environment_onInternalEnvRequest_locks (req : InternalEnvRequestPayload F)
    (h : Below mutexRank 1 held) (hheld : Service.autonomous ∈ held) :
    (system pf order).Locks mutexRank allows (Environment.onInternalEnvRequest req) held held := by
  refine ⟨.inl h, fun s => ?_⟩
  dsimp only
  split
  · simp [allows, info, Call.id, Msg.id, h.mono, hheld]
  · split
    · simp [update, allows, info, Call.id, Msg.id, h.mono]
    · simp

/-- Under its own mutex and that of `EnvironmentService`, `AutonomousService` may publish a
    `MotorSequence`. -/
theorem sequenceCalls_allowed (deref : EnvPtr → EnvironmentPayload F) (s : AutonomousService F)
    (h : Below mutexRank 2 held) :
    ∀ c ∈ Autonomous.sequenceCalls deref s, allows c (.autonomous :: held) := by
  refine (callsOnly_sequence deref s).allowed ?_
  simp [h.mono]

theorem autonomous_onAutoDriveCommand_locks (cmd : AutoDriveCommandPayload F)
    (h : Below mutexRank 0 held) :
    (system pf order).Locks mutexRank allows (Autonomous.onAutoDriveCommand cmd) held held := by
  refine ⟨.inl h, ?_, fun s => ?_⟩
  · simp [allows, info, Call.id, h.mono]
  · simp only [locks_calls, locks_unlock, locks_done, and_true]
    split
    · exact sequenceCalls_allowed _ _ (h.mono (Nat.zero_le _))
    · simp

theorem autonomous_onInternalEnvData_locks (env : InternalEnvDataPayload)
    (h : Below mutexRank 2 held) (hheld : Service.autonomous ∈ held) :
    (system pf order).Locks mutexRank allows (Autonomous.onInternalEnvData (F := F) env) held
      held := by
  -- The mutex is taken again by its owner.
  refine ⟨.inr ⟨rfl, hheld⟩, fun s => ?_⟩
  simp only [locks_calls, locks_unlock, locks_done, and_true, List.mem_append]
  rintro c (hc | hc)
  · split at hc
    · simp_all [allows, info, Call.id, h.mono]
    · exact absurd hc List.not_mem_nil
  · split at hc
    · exact sequenceCalls_allowed _ _ h c hc
    · exact absurd hc List.not_mem_nil

theorem autonomous_onKinematicsData_locks (kin : KinematicsPayload F)
    (h : Below mutexRank 1 held) :
    (system pf order).Locks mutexRank allows (Autonomous.onKinematicsData kin) held held := by
  refine ⟨mayLock_autonomous h, fun s => ?_⟩
  dsimp only
  split
  · simp
  · rw [locks_calls]
    refine ⟨(callsOnly_requestStretch kin s.app).allowed ?_, fun s' => ?_⟩
    · simp [h.mono]
    · simp only [locks_calls]
      refine ⟨(callsOnly_check _ _ _ kin).allowed ?_, fun _ => ?_⟩
      · simp [h.mono]
      · simp

theorem autonomous_onPhysicsTick_locks (h : Below mutexRank 0 held) :
    (system pf order).Locks mutexRank allows (Autonomous.onPhysicsTick (F := F)) held held := by
  refine ⟨.inl h, fun s => ?_⟩
  simp only [locks_calls, locks_unlock, locks_done, and_true]
  refine (callsOnly_polls _).allowed ?_
  simp [h.mono]

end

/-- Every handler keeps to the order, with any mutexes held under which its message may be
    published. -/
theorem onMessage_locks (pf : Platform F) (order : List Service) {h : Service} {m : Msg F}
    {held : List Service} (hh : m.id ∈ h.subscribes) (hheld : allows (.message m) held) :
    (system pf order).Locks mutexRank allows (onMessage pf h m) held held := by
  obtain ⟨hbelow, hinner⟩ := hheld
  cases m <;> cases h <;>
    simp only [Msg.id, Service.subscribes, List.mem_cons, reduceCtorEq, or_false, or_self,
      List.not_mem_nil] at hh
  all_goals
    simp only [Call.id, Msg.id, bound, inner, reduceCtorEq, or_self, or_false, or_true,
      forall_const, IsEmpty.forall_iff] at hbelow hinner
  case physicsTick.motor tick => exact motor_onPhysicsTick_locks tick hbelow
  case physicsTick.autonomous tick => exact autonomous_onPhysicsTick_locks hbelow
  case internalEnvRequest.environment req =>
      exact environment_onInternalEnvRequest_locks req hbelow hinner.1
  case internalEnvData.autonomous env =>
      exact autonomous_onInternalEnvData_locks env hbelow hinner.1
  case kinematicsData.autonomous kin => exact autonomous_onKinematicsData_locks kin hbelow
  case powerData.autonomous power =>
      exact ⟨mayLock_autonomous hbelow, fun _ => locks_unlock.2 rfl⟩
  case autoDriveCommand.autonomous cmd => exact autonomous_onAutoDriveCommand_locks cmd hbelow
  -- The others lock their mutex above everything held and call log lines and single messages.
  all_goals
    simp [onMessage, Motor.onMotorSequence, Kinematics.onPhysicsTick, Kinematics.onMotorStatus,
      Kinematics.onKinematicsRequest, Power.onPhysicsTick, Power.onMotorStatus,
      Power.onPowerRequest, Thermal.onPhysicsTick, Thermal.onEnvironmentData,
      Thermal.onThermalRequest, StateService.onStateRequest, StateService.onMotorStatus,
      Environment.onEnvironmentData, forwardToUdp, update, look, Prog.read, System.MayLock,
      everyHundred, info, allows, Call.id, Msg.id, hbelow.mono]

/-- The code of every call. -/
theorem code_locks (pf : Platform F) (order : List Service) {h : Service} {c : Call F}
    {held : List Service} (hh : h ∈ receivers pf c) (hheld : allows c held) :
    (system pf order).Locks mutexRank allows (code pf h c) held held := by
  have hbelow := hheld.1
  cases c with
  | message m =>
      refine onMessage_locks pf order ?_ hheld
      exact of_decide_eq_true (List.mem_filter.1 hh).2
  | logData p =>
      simp only [code]
      split
      · exact ⟨.inl hbelow, fun _ => locks_unlock.2 rfl⟩
      · exact locks_done.2 rfl
  | log p =>
      simp only [code]
      split
      · exact ⟨.inl hbelow, fun _ => locks_unlock.2 rfl⟩
      · exact locks_done.2 rfl

/-! ## Threads -/

theorem destroyAll_locks (pf : Platform F) (order services : List Service) :
    (system pf order).Locks mutexRank allows (destroyAll (F := F) services) [] [] := by
  induction services with
  | nil => rfl
  | cons h rest ih => cases h <;> simp [destroyAll, destructor, MayLock, ih]

/-- Every iteration of a thread starts and ends without a mutex. -/
theorem begins_locks (pf : Platform F) (order : List Service) {s s' : State F} {a : Activity F}
    {p : Code F} (h : begins pf order s a = some (s', p)) :
    (system pf order).Locks mutexRank allows p [] [] := by
  cases begun_of_begins h with
  | clock =>
      refine fun start => ⟨.inl below_nil, fun s => ⟨_, rfl, ?_, fun stop => ?_⟩⟩
      · simp [allows, Call.id, Msg.id]
      · dsimp only
        split <;> simp [MayLock]
  | @rx sender admitted hauth =>
      refine ⟨.inl below_nil, fun _ => locks_unlock.2 (locks_calls.2 ⟨?_, rfl⟩)⟩
      intro c hc
      obtain ⟨m, hm, rfl⟩ := List.mem_map.1 hc
      have hinner : ¬ inner m.id := by
        -- The bridge publishes none of the inner messages.
        have hauth := hauth m (Option.mem_toList.1 hm)
        rintro (hid | hid) <;> simp_all [App.authorized, Service.publishes]
      exact ⟨below_nil, fun h => absurd h hinner, fun h => absurd (.inr h) hinner⟩
  | worker =>
      refine ⟨.inl below_nil, fun s => ?_⟩
      dsimp only
      split
      · split
        · simp [exit]
        · simp [allows, Call.id]
      · simp
  | heartbeat => simp [heartbeatIteration, allows, Call.id]
  | exit => simp [exit]
  | main => exact destroyAll_locks pf order order
  | signal => exact rfl
  | wait _ => exact rfl

theorem system_disciplined (pf : Platform F) (order : List Service) :
    (system pf order).Disciplined mutexRank allows where
  code hh hheld := code_locks pf order hh hheld
  start := by
    rintro t s s' p ⟨a, -, h⟩
    exact begins_locks pf order h

/-- **Deadlock freedom.** In every reachable state, no threads wait in a circle for mutexes held by
    the next, and no thread tries to lock a mutex it holds unless it is recursive. -/
theorem reachable_no_deadlock (pf : Platform F) (order : List Service) {c : SilConfig F}
    (hc : Reachable pf order c) :
    (∀ t, ¬ Relation.TransGen (Waits c) t t) ∧
      ∀ t l, wants c t = some l → recursive l = false → l ∉ c.held t := by
  have horderly := (system_disciplined pf order).run (orderly_idle _ _ _ _) hc
  exact ⟨horderly.no_cycle, fun t l => horderly.no_relock⟩

/-- The worker waits for the heartbeat, which is inside `log`. -/
def heartbeatLogs : List (Move ℚ) :=
  [.start .heartbeat, .advance .heartbeat 3, .start .worker]

theorem heartbeatLogs_no_deadlock : ∃ c : SilConfig ℚ,
    play (.libstdcxx fun _ _ => 0) Service.all (idle .init) heartbeatLogs = some c ∧
      Waits c .worker .heartbeat ∧ (∀ t, ¬ Relation.TransGen (Waits c) t t) ∧
        ∀ t l, wants c t = some l → recursive l = false → l ∉ c.held t := by
  let pf : Platform ℚ := .libstdcxx fun _ _ => 0
  have hreach : ∀ c, play pf Service.all (idle .init) heartbeatLogs = some c →
      Reachable pf Service.all c := fun c h => play_run h
  exact ⟨_, rfl, ⟨.log, rfl, by decide, List.mem_cons_self⟩,
    reachable_no_deadlock pf Service.all (hreach _ rfl)⟩

end Sil

end ReflectPytest
