import ReflectPytest.Sil.Threads
import ReflectPytest.Library.Cascades

set_option autoImplicit false

/-! # Cascades end

Read off the `Publishes` and `Subscribes` lists the services could call each other forever:
`KinematicsData` makes `AutonomousService` publish, which publishes `KinematicsRequest`, which makes
`KinematicsService` publish `KinematicsData`. The handlers do less: each only calls what
`Service.answers` lists for the message it handles, and the logger, and along that table
`MsgId.rank` decreases. -/

namespace ReflectPytest

open LockedBus LockedBus.System

namespace Sil

variable {F : Type} [FloatOps F]

omit [FloatOps F] in
theorem CallsOnly.emits {ids ids' : List MsgId} {cs : List (Call F)} (hcs : CallsOnly ids cs)
    (hids : ids ⊆ ids') : ∀ c ∈ cs, c.id ∈ ids' :=
  fun c hc => hids (hcs c hc)

/-- A handler calls the logger, and publishes what the table of answers lists for it. -/
theorem onMessage_emits (pf : Platform F) (h : Service) (m : Msg F) :
    (onMessage pf h m).Emits fun c => c.id ∈ MsgId.log :: h.answers m.id := by
  cases m <;> cases h
  case physicsTick.motor tick =>
      refine fun s => Prog.emits_calls.2 ⟨(callsOnly_advance _).emits ?_, trivial⟩
      show _ ⊆ MsgId.log :: Service.answers .motor .physicsTick
      decide
  case physicsTick.autonomous tick =>
      refine fun s => Prog.emits_calls.2 ⟨(callsOnly_polls _).emits ?_, trivial⟩
      show _ ⊆ MsgId.log :: Service.answers .autonomous .physicsTick
      decide
  case internalEnvRequest.environment req =>
      intro s
      dsimp only
      split
      · simp [Prog.Emits, info, Call.id, Msg.id, Service.answers]
      · split
        · simp [Prog.Emits, update, info, Call.id, Msg.id, Service.answers]
        · trivial
  case internalEnvData.autonomous env =>
      refine fun s => Prog.emits_calls.2 ⟨fun c hc => ?_, trivial⟩
      rcases List.mem_append.1 hc with hc | hc
      · split at hc <;> simp_all [info, Call.id]
      · split at hc
        · exact callsOnly_sequence _ _ c hc
        · exact absurd hc List.not_mem_nil
  case kinematicsData.autonomous kin =>
      intro s
      dsimp only
      split
      · trivial
      · have hrequest : [.internalEnvRequest] ⊆
            MsgId.log :: Service.answers .autonomous .kinematicsData := by decide
        have hcheck : [.log, .internalEnvRequest, .autoDriveStatus, .motorSequence] ⊆
            MsgId.log :: Service.answers .autonomous .kinematicsData := by decide
        refine Prog.emits_calls.2 ⟨(callsOnly_requestStretch kin s.app).emits hrequest, ?_⟩
        exact fun s' => Prog.emits_calls.2 ⟨(callsOnly_check _ _ _ kin).emits hcheck,
          fun _ => trivial⟩
  case autoDriveCommand.autonomous cmd =>
      refine ⟨by simp [info, Call.id], fun s => Prog.emits_calls.2 ⟨fun c hc => ?_, trivial⟩⟩
      split at hc
      · exact callsOnly_sequence _ _ c hc
      · exact absurd hc List.not_mem_nil
  all_goals
    simp [onMessage, Motor.onMotorSequence, Kinematics.onPhysicsTick, Kinematics.onMotorStatus,
      Kinematics.onKinematicsRequest, Power.onPhysicsTick, Power.onMotorStatus,
      Power.onPowerRequest, Thermal.onPhysicsTick, Thermal.onEnvironmentData,
      Thermal.onThermalRequest, StateService.onStateRequest, StateService.onMotorStatus,
      Environment.onEnvironmentData, Autonomous.onPowerData, forwardToUdp, update, look, Prog.read,
      everyHundred, info, Prog.Emits, Call.id, Msg.id, Service.answers]

/-- The height of the call tree below a call. -/
def callRank : Call F → Nat
  | .message m => m.id.rank + 1
  | _ => 0

omit [FloatOps F] in
theorem Msg.id_ne_log (m : Msg F) : m.id ≠ .log := by
  cases m <;> simp [Msg.id]

omit [FloatOps F] in
/-- The rank belongs to the identifier. -/
theorem callRank_eq {c c' : Call F} (h : c.id = c'.id) : callRank c = callRank c' := by
  cases c with
  | message m =>
      cases c' with
      | message m' => exact congrArg (fun id => MsgId.rank id + 1) h
      | logData p | log p => exact absurd h (Msg.id_ne_log m)
  | logData p | log p =>
      cases c' with
      | message m' => exact absurd h.symm (Msg.id_ne_log m')
      | logData p' | log p' => rfl

/-- Every handler only makes calls ranked below the one it runs for. -/
theorem system_descends (pf : Platform F) (order : List Service) :
    (system pf order).Descends callRank := by
  intro h c
  cases c with
  | message m =>
      refine (onMessage_emits pf h m).mono fun c' hc' => ?_
      cases c' with
      | message m' =>
          have hanswer := (List.mem_cons.1 hc').resolve_left (Msg.id_ne_log m')
          have hlt := MsgId.rank_lt_of_mem_answers hanswer
          exact Nat.succ_lt_succ hlt
      | logData p => exact Nat.succ_pos _
      | log p => exact Nat.succ_pos _
  | logData p =>
      show (if h = .udpBridge then forwardToUdp (.logData p) else .done : Code F).Emits _
      split
      · exact fun _ => trivial
      · trivial
  | log p =>
      show (if h = .log then log p else .done : Code F).Emits _
      split
      · exact fun _ => trivial
      · trivial

/-- **Cascades end.** Whoever subscribed first, whatever state the services are in and whatever
    other threads do meanwhile: a published message, log lines included, is handled in finitely many
    steps, and at no point is the handler of one service for one message identifier active twice. -/
theorem dispatch_ends (pf : Platform F) (order : List Service) (call : Call F) :
    let publish : Code F := .call call .done
    (∀ run : Nat → List (SilFrame F), run 0 = [.run none publish] →
      ∃ n, ¬ (system pf order).Advances (run n) (run (n + 1))) ∧
    ∀ fs, Relation.ReflTransGen ((system pf order).Advances) [.run none publish] fs →
      ((active fs).map fun a => (a.1, a.2.id)).Nodup := by
  intro publish
  have hdescends := system_descends pf order
  refine ⟨(hdescends.ends _).no_infinite, fun fs hfs => ?_⟩
  refine List.pairwise_map.2 ((hdescends.active hfs).imp fun {a b} hlt heq => ?_)
  exact absurd (callRank_eq (Prod.mk.inj heq).2) (ne_of_lt hlt)

/-- So no thread of the process is ever inside the same handler twice. -/
theorem reachable_active (pf : Platform F) (order : List Service) {c : SilConfig F}
    (hc : Reachable pf order c) (t : Thread) :
    ((active (c.stack t)).map fun a => (a.1, a.2.id)).Nodup := by
  have hnested := (system_descends pf order).run hc (fun _ => trivial) t
  refine List.pairwise_map.2 (hnested.active_pairwise.imp fun {a b} hlt heq => ?_)
  exact absurd (callRank_eq (Prod.mk.inj heq).2) (ne_of_lt hlt)

end Sil

end ReflectPytest
