import ReflectPytest.Concurrency.AppThreads
import ReflectPytest.Library.Guarantees

set_option autoImplicit false

/-! # Command ids

The id of a motor sequence travels from `MotorService` by its statuses to `StateService`, from there
by the tick to the physics, and back to the client in the telemetry. On no way is one made up. -/

namespace ReflectPytest

open SyncBus

variable {F : Type} [FloatOps F]

namespace App

/-- The id is that of a motor sequence published before, or the initial one. -/
def Issued (cmdId : Nat) (history : List (Record F)) : Prop :=
  cmdId = 0 ∨ ∃ cmd, .published (.motorSequence cmd) ∈ history ∧ cmd.cmdId = cmdId

/-- The command id a message reports. -/
def commandId : Msg F → Option Nat
  | .physicsTick tick => some tick.cmdId
  | .motorStatus ms => some ms.cmdId
  | .kinematicsData kin => some kin.cmdId
  | .powerData power => some power.cmdId
  | _ => none

/-- The services hold ids that were issued, and every message of the history reported one that was
    issued before it. -/
structure Traced (w : World F) : Prop where
  motor : Issued w.motor.currentCmd.cmdId w.history
  state : Issued w.state.lastCmdId w.history
  clock : ∀ tick ∈ w.clockTick, Issued tick.cmdId w.history
  kinematics : Issued w.kinematics.cmdId w.history
  power : Issued w.power.cmdId w.history
  published : ∀ later m earlier, w.history = later ++ .published m :: earlier →
    ∀ cmdId ∈ commandId m, Issued cmdId earlier

/-- A message may be published that reports an issued id. -/
def Reports (m : Msg F) (w : World F) : Prop := ∀ cmdId ∈ commandId m, Issued cmdId w.history

omit [FloatOps F] in
theorem Issued.later {cmdId : Nat} {history history' : List (Record F)}
    (h : Issued cmdId history) (hle : history <:+ history') : Issued cmdId history' :=
  h.imp_right fun ⟨cmd, hcmd, hid⟩ => ⟨cmd, hle.subset hcmd, hid⟩

omit [FloatOps F] in
theorem Reports.later {m : Msg F} {w w' : World F} (h : Reports m w)
    (hle : w.history <:+ w'.history) : Reports m w' :=
  fun cmdId hid => (h cmdId hid).later hle

theorem traced_init : Traced (.init : World F) where
  motor := .inl rfl
  state := .inl rfl
  clock _ h := nomatch h
  kinematics := .inl rfl
  power := .inl rfl
  published later m earlier h := by simp [World.init] at h

/-! ## Sections -/

omit [FloatOps F] in
/-- Recording an allowed message. -/
theorem Traced.record {w : World F} (h : Traced w) {r : Record F}
    (hr : ∀ m, r = .published m → Reports m w) : Traced { w with history := r :: w.history } := by
  have hle : w.history <:+ r :: w.history := List.suffix_cons _ _
  refine ⟨h.motor.later hle, h.state.later hle, fun tick ht => (h.clock tick ht).later hle,
    h.kinematics.later hle, h.power.later hle, fun later m earlier heq => ?_⟩
  cases later with
  | nil =>
      obtain ⟨rfl, rfl⟩ := List.cons.inj heq
      exact hr m rfl
  | cons r' later => exact h.published later m earlier (List.cons.inj heq).2

theorem issued_onMotorStatus {s : KinematicsService F} {history : List (Record F)}
    (h : Issued s.cmdId history) {ms : MotorStatusPayload} (hms : Issued ms.cmdId history) :
    Issued (s.onMotorStatus ms).cmdId history := by
  unfold KinematicsService.onMotorStatus
  split_ifs
  · exact hms
  · exact h
  · exact h

omit [FloatOps F] in
/-- Sections that touch neither a command id nor the history keep the invariant. -/
theorem Traced.congr {w w' : World F} (h : Traced w) (hmotor : w'.motor = w.motor)
    (hstate : w'.state = w.state) (hclock : w'.clockTick = w.clockTick)
    (hkin : w'.kinematics = w.kinematics) (hpower : w'.power = w.power)
    (hhistory : w'.history = w.history) : Traced w' := by
  refine ⟨?_, ?_, ?_, ?_, ?_, ?_⟩
  · rw [hmotor, hhistory]
    exact h.motor
  · rw [hstate, hhistory]
    exact h.state
  · rw [hclock, hhistory]
    exact h.clock
  · rw [hkin, hhistory]
    exact h.kinematics
  · rw [hpower, hhistory]
    exact h.power
  · rw [hhistory]
    exact h.published

/-- The services that handle no command ids. -/
def Unnumbered (h : Service) : Prop :=
  h ≠ .motor ∧ h ≠ .kinematics ∧ h ≠ .power ∧ h ≠ .state

theorem unnumbered_preserves (pf : Platform F) {h : Service} (hh : Unnumbered h) (m : Msg F) :
    (code pf h m).Preserves Traced := by
  obtain ⟨hmotor, hkin, hpower, hstate⟩ := hh
  cases h
  case motor => exact absurd rfl hmotor
  case kinematics => exact absurd rfl hkin
  case power => exact absurd rfl hpower
  case state => exact absurd rfl hstate
  all_goals
    cases m <;> simp only [code, update, Code.preserves_done, Code.preserves_single]
  all_goals try exact fun w hw => hw.congr rfl rfl rfl rfl rfl rfl
  case environment.internalEnvRequest req =>
      refine ⟨fun w hw => hw, fun w => ?_⟩
      dsimp only
      split
      · exact (Code.preserves_single _ _).2 fun w hw => hw.congr rfl rfl rfl rfl rfl rfl
      · trivial
  case autonomous.kinematicsData kin =>
      refine ⟨fun w hw => ?_, fun w => ?_⟩
      · unfold requestStretch
        split <;> exact hw.congr rfl rfl rfl rfl rfl rfl
      · dsimp only
        split
        · trivial
        · exact ⟨fun w hw => hw.congr rfl rfl rfl rfl rfl rfl, fun _ =>
            (Code.preserves_single _ _).2 fun w hw => hw.congr rfl rfl rfl rfl rfl rfl⟩

omit [FloatOps F] in
/-- They publish no command id, either, but in motor sequences. -/
theorem unnumbered_reports {h : Service} (hh : Unnumbered h) {id : MsgId} {m : Msg F}
    (hm : m.id ∈ h.answers id) (w : World F) : Reports m w := by
  obtain ⟨hmotor, hkin, hpower, hstate⟩ := hh
  have hnone : commandId m = none := by
    cases h
    case motor => exact absurd rfl hmotor
    case kinematics => exact absurd rfl hkin
    case power => exact absurd rfl hpower
    case state => exact absurd rfl hstate
    all_goals
      cases id <;> simp only [Service.answers, List.not_mem_nil] at hm <;>
        cases m <;> simp_all [Msg.id, commandId]
  rw [Reports, hnone]
  exact fun _ hid => absurd hid (Option.not_mem_none _)

/-! ## The guarantee -/

/-- A message that has been published reported an issued id, and a motor sequence issued its own. -/
def Passed (m : Msg F) (w : World F) : Prop := .published m ∈ w.history ∧ Reports m w

theorem motor_traced (pf : Platform F) (m : Msg F) :
    (code pf .motor m).Keeps Traced Reports (Passed m) := by
  cases m <;> simp only [code, Code.keeps_done, Code.keeps_single]
  case motorSequence cmd =>
      intro w hm hw
      have hissued : Issued (w.motor.onMotorSequence cmd).1.currentCmd.cmdId w.history := by
        rw [MotorService.onMotorSequence_cmd, MotorService.accept_cmdId]
        exact .inr ⟨cmd, hm.1, rfl⟩
      refine ⟨{ hw with motor := hissued }, fun m' hm' => ?_⟩
      rw [List.mem_singleton.1 hm', MotorService.onMotorSequence_status]
      exact fun _ hid => Option.some.inj hid ▸ hissued
  case physicsTick tick =>
      intro w _ hw
      have hissued : Issued (w.motor.onPhysicsTick tick).1.currentCmd.cmdId w.history := by
        rw [MotorService.onPhysicsTick_cmd]
        exact hw.motor
      refine ⟨{ hw with motor := hissued }, fun m' hm' => ?_⟩
      obtain ⟨ms, hms, rfl⟩ := List.mem_map.1 hm'
      rw [MotorService.onPhysicsTick_status (Option.mem_toList.1 hms)]
      exact fun _ hid => Option.some.inj hid ▸ hissued

theorem kinematics_traced (pf : Platform F) (m : Msg F) :
    (code pf .kinematics m).Keeps Traced Reports (Passed m) := by
  cases m <;> simp only [code, Code.keeps_done, Code.keeps_single, List.not_mem_nil,
    false_imp_iff, implies_true, and_true]
  case physicsTick tick => exact fun w hm hw => { hw with kinematics := hm.2 _ rfl }
  case motorStatus ms =>
      exact fun w hm hw => { hw with kinematics := issued_onMotorStatus hw.kinematics (hm.2 _ rfl) }
  case kinematicsRequest =>
      refine fun w _ hw => ⟨hw, fun m' hm' => ?_⟩
      rw [List.mem_singleton.1 hm']
      exact fun _ hid => Option.some.inj hid ▸ hw.kinematics

theorem power_traced (pf : Platform F) (m : Msg F) :
    (code pf .power m).Keeps Traced Reports (Passed m) := by
  cases m <;> simp only [code, Code.keeps_done, Code.keeps_single, List.not_mem_nil,
    false_imp_iff, implies_true, and_true]
  case physicsTick tick => exact fun w hm hw => { hw with power := hm.2 _ rfl }
  case motorStatus ms => exact fun w hm hw => { hw with power := hm.2 _ rfl }
  case powerRequest =>
      refine fun w _ hw => ⟨hw, fun m' hm' => ?_⟩
      rw [List.mem_singleton.1 hm']
      exact fun _ hid => Option.some.inj hid ▸ hw.power

theorem state_traced (pf : Platform F) (m : Msg F) :
    (code pf .state m).Keeps Traced Reports (Passed m) := by
  cases m <;> simp only [code, Code.keeps_done, Code.keeps_single, List.not_mem_nil,
    false_imp_iff, implies_true, and_true]
  case motorStatus ms => exact fun w hm hw => { hw with state := hm.2 _ rfl }
  case stateRequest =>
      refine fun w _ hw => ⟨hw, fun m' hm' => ?_⟩
      rw [List.mem_singleton.1 hm']
      exact fun _ hid => absurd hid (Option.not_mem_none _)

theorem bus_traced (pf : Platform F) :
    Guarantee (bus pf) (fun w w' => w.history <:+ w'.history) Traced Reports Passed where
  grows := bus_grows pf
  pre_mono _ _ _ hle hm := hm.later hle
  rec_mono _ _ _ hle hm := ⟨hle.subset hm.1, hm.2.later hle⟩
  code := by
    intro m h _
    show (code pf h m).Keeps _ _ _
    by_cases hh : Unnumbered h
    · exact (Code.Keeps.of_preserves ((code_emits pf h m).mono fun m' hm' w =>
        unnumbered_reports hh hm' w) (unnumbered_preserves pf hh m)).mono_pre fun m' w hm' => hm' w
    · cases h with
      | motor => exact motor_traced pf m
      | kinematics => exact kinematics_traced pf m
      | power => exact power_traced pf m
      | state => exact state_traced pf m
      | _ => exact absurd ⟨by decide, by decide, by decide, by decide⟩ hh
  record m w hm hw := by
    refine ⟨hw.record fun m' heq => ?_, List.mem_cons_self, hm.later (List.suffix_cons _ _)⟩
    exact Record.published.inj heq ▸ hm

omit [FloatOps F] in
/-- The clock publishes the id of its snapshot; the bridge publishes none but in motor
    sequences. -/
theorem start_traced (pf : Platform F) {t : Thread} {w w' : World F} {ms : List (Msg F)}
    (hstart : Start pf t w w' ms) (hw : Traced w) :
    w.history <:+ w'.history ∧ Traced w' ∧ ∀ m ∈ ms, Reports m w' := by
  cases hstart with
  | snapshot hnone =>
      have hle : w.history <:+ (takeSnapshot pf w).1.history := List.suffix_cons _ _
      have htraced : Traced (takeSnapshot pf w).1 := hw.record fun _ h => nomatch h
      refine ⟨hle, { htraced with clock := fun tick htick => ?_ },
        fun _ hm => absurd hm List.not_mem_nil⟩
      rw [← Option.some.inj htick]
      exact hw.state.later hle
  | tick htick =>
      refine ⟨List.suffix_rfl, { hw with clock := fun _ h => nomatch h }, fun m hm => ?_⟩
      rw [List.mem_singleton.1 hm]
      exact fun _ hid => Option.some.inj hid ▸ hw.clock _ htick
  | @datagram _ m hauth =>
      refine ⟨List.suffix_rfl, hw, fun m' hm' => ?_⟩
      have hnone : commandId m = none := by
        cases m <;> simp_all [authorized, Msg.id, Service.publishes, commandId]
      rw [List.mem_singleton.1 hm', Reports, hnone]
      exact fun _ hid => absurd hid (Option.not_mem_none _)
  | wait _ => exact ⟨List.suffix_rfl, { hw with }, fun _ hm => absurd hm List.not_mem_nil⟩

/-- **No command id is made up**: in every reachable configuration, the services hold ids of motor
    sequences published before, and every status, tick and telemetry message reported the id of one
    published before it, or the initial id. -/
theorem reachable_traced (pf : Platform F) {c : AppConfig F} (hreach : Reachable pf c) :
    Traced c.world :=
  ((bus_traced pf).run (S := machine pf) (fun _ _ _ _ hs hw => start_traced pf hs hw) hreach
    ⟨traced_init, fun _ _ hf => absurd hf List.not_mem_nil⟩).world

/-- A client sends a command of id 7, and the bridge delivers it. -/
def seventh : List (Move ℚ) :=
  .datagram (.motorSequence
      { cmdId := 7, numSteps := 1, steps := StdArray.set (fun _ => default) 0 ⟨9000, 30000⟩ }) ::
    List.replicate 40 (.advance .bridge)

/-- The physics reports that id afterwards, which was issued. -/
theorem seventh_traced :
    ∃ c : AppConfig ℚ, c.world.kinematics.cmdId = 7 ∧
      ∃ cmd, .published (.motorSequence cmd) ∈ c.world.history ∧ cmd.cmdId = 7 := by
  have hplay : ((play (.libstdcxx fun _ _ => 0) (fun _ _ => True) start seventh).map
      fun c => c.world.kinematics.cmdId) = some 7 := by
    decide +kernel
  obtain ⟨c, hc, hid⟩ := Option.map_eq_some_iff.1 hplay
  refine ⟨c, hid, ?_⟩
  have htraced : Issued c.world.kinematics.cmdId c.world.history :=
    (reachable_traced _ (play_run hc)).kinematics
  rw [hid] at htraced
  exact htraced.resolve_left (by decide)

end App

end ReflectPytest
