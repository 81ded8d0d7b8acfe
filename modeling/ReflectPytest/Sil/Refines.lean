import ReflectPytest.Sil.Threads

set_option autoImplicit false

/-! # What handlers compute

A handler with its mutexes and log lines, run by itself, does to the services what `App.code` says,
and publishes the same messages in the same order (`onMessage_refines`). -/

namespace ReflectPytest

open LockedBus SyncBus

namespace Sil

variable {F : Type} [FloatOps F]

/-- The message of a publish; log lines have none. -/
def Call.message? : Call F → Option (Msg F)
  | .message m => some m
  | .logData _ | .log _ => none

omit [FloatOps F] in
@[simp] theorem message?_message (m : Msg F) : (Call.message m).message? = some m := rfl

omit [FloatOps F] in
@[simp] theorem message?_info (component format : String) :
    (info component format : Call F).message? = none := rfl

/-- Making a call publishes its message to the services, and log lines do nothing to them. -/
def Lifts (publish : Msg F → World F → World F) (call : Call F → State F → State F) : Prop :=
  ∀ c s, (call c s).app = c.message?.elim s.app fun m => publish m s.app

section

variable {publish : Msg F → World F → World F} {call : Call F → State F → State F}

omit [FloatOps F] in
theorem Lifts.foldl (hcall : Lifts publish call) (cs : List (Call F)) (s : State F) :
    (cs.foldl (fun s c => call c s) s).app =
      (cs.filterMap Call.message?).foldl (fun w m => publish m w) s.app := by
  induction cs generalizing s with
  | nil => rfl
  | cons c cs ih =>
      rw [List.foldl_cons, ih, hcall c s]
      cases c <;> rfl

omit [FloatOps F] in
@[simp] theorem messages_publishes (ms : List (Msg F)) :
    (publishes ms).filterMap Call.message? = ms := by
  induction ms with
  | nil => rfl
  | cons m ms ih => exact congrArg (m :: ·) ih

omit [FloatOps F] in
/-- Log lines do not count among the messages. -/
@[simp] theorem messages_ite_info (p : Prop) [Decidable p] (component format : String) :
    (if p then [info component format] else [] : List (Call F)).filterMap Call.message? = [] := by
  split <;> rfl

omit [FloatOps F] in
@[simp] theorem messages_ite_not_info (p : Prop) [Decidable p] (component format : String) :
    (if p then [] else [info component format] : List (Call F)).filterMap Call.message? = [] := by
  split <;> rfl

omit [FloatOps F] in
@[simp] theorem messages_advanceCalls (status : Option MotorStatusPayload) :
    (status.elim [] (Motor.advanceCalls (F := F))).filterMap Call.message? =
      status.toList.map Msg.motorStatus := by
  cases status with
  | none => rfl
  | some ms =>
      simp only [Option.elim, Motor.advanceCalls]
      split <;> rfl

omit [FloatOps F] in
@[simp] theorem send_app (payload : Call F) (t : Thread) (s : State F) :
    (send payload t s).app = s.app := by
  unfold send
  split <;> rfl

omit [FloatOps F] in
@[simp] theorem messages_everyHundred (count : Nat) (component format : String) :
    (everyHundred count (info component format : Call F)).filterMap Call.message? = [] := by
  unfold everyHundred
  split <;> rfl

@[simp] theorem messages_sequenceCalls (deref : EnvPtr → EnvironmentPayload F)
    (s : AutonomousService F) :
    (Autonomous.sequenceCalls deref s).filterMap Call.message? =
      messages (s.publishMotorSequenceForCurrentNode deref) := by
  unfold Autonomous.sequenceCalls
  rw [List.filterMap_append, messages_publishes]
  split <;> rfl

@[simp] theorem messages_checkCalls (deref : EnvPtr → EnvironmentPayload F)
    (s : AutonomousService F) (idx : Nat) (kin : KinematicsPayload F) :
    (Autonomous.checkCalls deref s idx kin).filterMap Call.message? =
      messages (s.checkNode deref idx kin).2 := by
  unfold Autonomous.checkCalls
  dsimp only
  split
  · simp only [List.filterMap_cons, message?_info, List.filterMap_append, messages_publishes]
    split
    · rfl
    · split <;> rfl
  · next hnot =>
      rw [AutonomousService.checkNode_miss deref (Bool.eq_false_iff.2 hnot)]
      rfl

theorem messages_onInternalEnvData (deref : EnvPtr → EnvironmentPayload F)
    (s : AutonomousService F) (env : InternalEnvDataPayload) :
    messages (s.onInternalEnvData deref env).2 =
      if s.routeActive then messages
        ((s.onInternalEnvData deref env).1.publishMotorSequenceForCurrentNode deref) else [] := by
  have hactive := (s.onInternalEnvData_mission deref env).active
  unfold AutonomousService.onInternalEnvData AutonomousService.trackEnvironment at hactive ⊢
  dsimp only at hactive ⊢
  split <;> split_ifs <;> simp_all

theorem onAutoDriveCommand_refines (pf : Platform F) (hcall : Lifts publish call) (t : Thread)
    (cmd : AutoDriveCommandPayload F) (s : State F) :
    ((Autonomous.onAutoDriveCommand cmd).exec t call s).app =
      (App.code pf .autonomous (.autoDriveCommand cmd)).exec publish s.app := by
  have hmessages : (if (s.app.autonomous.acceptCommand cmd).routeActive then
      Autonomous.sequenceCalls s.app.environment.deref (s.app.autonomous.acceptCommand cmd)
      else []).filterMap Call.message? =
      messages (s.app.autonomous.onAutoDriveCommand s.app.environment.deref cmd).2 := by
    unfold AutonomousService.onAutoDriveCommand
    dsimp only
    split <;> simp
  simp [Autonomous.onAutoDriveCommand, update, App.code, hcall.foldl, hcall _ _,
    hmessages, AutonomousService.onAutoDriveCommand]

theorem onInternalEnvData_refines (pf : Platform F) (hcall : Lifts publish call) (t : Thread)
    (env : InternalEnvDataPayload) (s : State F) :
    ((Autonomous.onInternalEnvData env).exec t call s).app =
      (App.code pf .autonomous (.internalEnvData env)).exec publish s.app := by
  have hmessages : (if s.app.autonomous.routeActive then
      Autonomous.sequenceCalls s.app.environment.deref
        (s.app.autonomous.onInternalEnvData s.app.environment.deref env).1
      else []).filterMap Call.message? =
      messages (s.app.autonomous.onInternalEnvData s.app.environment.deref env).2 := by
    rw [messages_onInternalEnvData]
    split <;> simp
  simp [Autonomous.onInternalEnvData, update, App.code, hcall.foldl, hmessages]

theorem onInternalEnvRequest_refines (pf : Platform F) (hcall : Lifts publish call) (t : Thread)
    (req : InternalEnvRequestPayload F) (s : State F) :
    ((Environment.onInternalEnvRequest req).exec t call s).app =
      (App.code pf .environment (.internalEnvRequest req)).exec publish s.app := by
  simp only [Environment.onInternalEnvRequest, look, Prog.read, Prog.exec, App.code, Code.exec,
    App.answerRequest, App.missesEnvironment]
  rcases Option.eq_none_or_eq_some (s.app.environment.lookup req) with hmiss | ⟨p, hhit⟩
  · by_cases hmay : s.app.environment.mayRequest s.app.now = true
    · simp [hmiss, hmay, update, App.update, hcall _ _]
    · simp [hmiss, hmay]
  · simp [hhit, hcall _ _]

theorem onKinematicsData_refines (pf : Platform F) (hcall : Lifts publish call) (t : Thread)
    (kin : KinematicsPayload F) (s : State F) :
    ((Autonomous.onKinematicsData kin).exec t call s).app =
      (App.code pf .autonomous (.kinematicsData kin)).exec publish s.app := by
  simp only [Autonomous.onKinematicsData, update, Prog.exec, App.code, Code.exec]
  cases hidle : s.app.autonomous.idle with
  | true => simp [App.requestStretch, hidle]
  | false => simp [Code.exec, App.update, App.checkStretch, hcall.foldl]

/-- **Handlers compute what `App.code` says.** -/
theorem onMessage_refines (pf : Platform F) (hcall : Lifts publish call) (t : Thread) (h : Service)
    (m : Msg F) (s : State F) :
    ((onMessage pf h m).exec t call s).app = (App.code pf h m).exec publish s.app := by
  cases h <;> cases m
  case autonomous.kinematicsData kin => exact onKinematicsData_refines pf hcall t kin s
  case autonomous.autoDriveCommand cmd => exact onAutoDriveCommand_refines pf hcall t cmd s
  case autonomous.internalEnvData env => exact onInternalEnvData_refines pf hcall t env s
  case environment.internalEnvRequest req => exact onInternalEnvRequest_refines pf hcall t req s
  all_goals
    simp [onMessage, Motor.onMotorSequence, Motor.onPhysicsTick, Kinematics.onPhysicsTick,
      Kinematics.onMotorStatus, Kinematics.onKinematicsRequest, Power.onPhysicsTick,
      Power.onMotorStatus, Power.onPowerRequest, Thermal.onPhysicsTick,
      Thermal.onEnvironmentData, Thermal.onThermalRequest, StateService.onStateRequest,
      StateService.onMotorStatus, Environment.onEnvironmentData, Autonomous.onPowerData,
      Autonomous.onPhysicsTick, update, look, Prog.read, forwardToUdp, App.code, App.update,
      hcall.foldl, hcall _ _]

end

/-- The code of a log line does nothing to the services. -/
theorem code_log (pf : Platform F) {call : Call F → State F → State F} (t : Thread) (h : Service)
    {c : Call F} (hc : c.message? = none) (s : State F) :
    ((code pf h c).exec t call s).app = s.app := by
  cases c with
  | message m => exact nomatch hc
  | logData p =>
      simp only [code]
      split
      · exact send_app _ _ _
      · rfl
  | log p =>
      simp only [code]
      split <;> rfl

/-- **A dispatch by itself does what the bus of the services does.** -/
theorem dispatch_refines (pf : Platform F) (order : List Service) (t : Thread) (depth : Nat) :
    Lifts ((App.bus pf).dispatch depth) ((system pf order).dispatch t depth) := by
  induction depth with
  | zero =>
      intro c s
      cases c <;> rfl
  | succ depth ih =>
      -- The receivers are called one after another in both.
      have hmessage : ∀ m (hs : List Service) (s : State F),
          (hs.foldl (fun s h => (onMessage pf h m).exec t ((system pf order).dispatch t depth) s)
            s).app =
          hs.foldl (fun w h => (App.code pf h m).exec ((App.bus pf).dispatch depth) w) s.app := by
        intro m hs s
        induction hs generalizing s with
        | nil => rfl
        | cons h hs ihs =>
            rw [List.foldl_cons, List.foldl_cons, ihs, onMessage_refines pf ih]
      have hlog : ∀ (c : Call F) (hs : List Service) (s : State F), c.message? = none →
          (hs.foldl (fun s h => (code pf h c).exec t ((system pf order).dispatch t depth) s)
            s).app = s.app := by
        intro c hs s hc
        induction hs generalizing s with
        | nil => rfl
        | cons h hs ihs => rw [List.foldl_cons, ihs, code_log pf t h hc]
      intro c s
      cases c with
      | message m => exact hmessage m _ _
      | logData p => exact hlog (.logData p) _ s rfl
      | log p => exact hlog (.log p) _ s rfl

/-- In particular for a publish with everything it triggers. -/
theorem publish_refines (pf : Platform F) (order : List Service) (t : Thread) (m : Msg F)
    (s : State F) :
    ((system pf order).dispatch t (m.id.rank + 1) (.message m) s).app =
      (App.bus pf).publish m s.app :=
  dispatch_refines pf order t _ (.message m) s

end Sil

end ReflectPytest
