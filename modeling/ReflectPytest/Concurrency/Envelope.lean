import ReflectPytest.Concurrency.AppThreads
import ReflectPytest.Services.MotorBounds
import ReflectPytest.Services.ThermalBounds
import ReflectPytest.Services.Battery
import ReflectPytest.Library.Guarantees

set_option autoImplicit false

/-! # The operating envelope

Whatever datagrams arrive and however the threads interleave, the services stay within their bounds,
and so does everything they publish. The bounds lean on each other across the services: the physics
models take their speeds from ticks, the ticks from `StateService`, and that from the statuses of
`MotorService`, which clamps what it is sent. In exact arithmetic, with ticks of 10 ms. -/

namespace ReflectPytest

open SyncBus FloatOps PowerService

namespace App

/-- The ambient temperatures received are in a range. -/
def Mild (lo hi : ℚ) (w : World ℚ) : Prop :=
  ∀ env, .published (.environmentData env) ∈ w.history → env.ambientTempC ∈ Set.Icc lo hi

/-- The current at full speed. -/
def maxCurrentA (pow : ℚ → ℚ → ℚ) : ℚ := iIdleA + kRpmPowToAmps * pow 6000 rpmExpP

section

variable (pow : ℚ → ℚ → ℚ) (lo hi : ℚ)

/-- A message within the envelope. -/
def Fits (w : World ℚ) : Msg ℚ → Prop
  | .physicsTick tick => ThermalService.Driven (.physicsTick tick)
  | .motorStatus ms => ms.Bounded
  | .kinematicsData kin => |kin.speedMps| ≤ 60
  | .powerData p => p.voltageV ∈ Set.Icc (vMin : ℚ) vMax ∧ p.stateOfCharge = percent p.voltageV ∧
      p.currentA ∈ Set.Icc 0 (maxCurrentA pow)
  | .thermalData p => Mild lo hi w →
      p.motorTempC ∈ Set.Icc lo (hi + 600) ∧ p.batteryTempC ∈ Set.Icc lo (hi + 600)
  | _ => True

/-- The services are within their bounds, and the history holds nothing out of them. -/
structure InEnvelope (w : World ℚ) : Prop where
  motor : ∃ cmd, w.motor.Executes cmd ∧ w.motor.Remains
  state : |w.state.lastRpm| ≤ 6000
  clock : ∀ tick ∈ w.clockTick, ThermalService.Driven (.physicsTick tick)
  kinematics : |w.kinematics.speedMps| ≤ 60
  battery : w.power.Charged
  current : w.power.currentA ∈ Set.Icc 0 (maxCurrentA pow)
  thermal : Mild lo hi w → w.thermal.Within lo hi
  published : ∀ m, .published m ∈ w.history → Fits pow lo hi w m

end

variable {pow : ℚ → ℚ → ℚ} {lo hi : ℚ}

/-! ## Growing histories -/

theorem Mild.earlier {w w' : World ℚ} (hle : w.history <:+ w'.history) (h : Mild lo hi w') :
    Mild lo hi w :=
  fun env henv => h env (hle.subset henv)

theorem Fits.later {w w' : World ℚ} (hle : w.history <:+ w'.history) {m : Msg ℚ}
    (h : Fits pow lo hi w m) : Fits pow lo hi w' m := by
  cases m <;> first | exact h | exact fun hmild => h (hmild.earlier hle)

/-- The messages there is something to say about. -/
def physical : List MsgId := [.physicsTick, .motorStatus, .kinematicsData, .powerData, .thermalData]

theorem fits_of_not_physical {w : World ℚ} {m : Msg ℚ} (hm : m.id ∉ physical) :
    Fits pow lo hi w m := by
  cases m <;> first | trivial | exact absurd (by simp [Msg.id, physical]) hm

/-! ## Sections -/

/-- Sections outside the physics change none of it. -/
theorem InEnvelope.congr {w w' : World ℚ} (h : InEnvelope pow lo hi w)
    (hmotor : w'.motor = w.motor) (hstate : w'.state = w.state)
    (hclock : w'.clockTick = w.clockTick) (hkin : w'.kinematics = w.kinematics)
    (hpower : w'.power = w.power) (hthermal : w'.thermal = w.thermal)
    (hhistory : w'.history = w.history) : InEnvelope pow lo hi w' := by
  have hmild : Mild lo hi w' → Mild lo hi w := fun hmild => hmild.earlier (by rw [hhistory])
  refine ⟨by rw [hmotor]; exact h.motor, by rw [hstate]; exact h.state,
    by rw [hclock]; exact h.clock, by rw [hkin]; exact h.kinematics,
    by rw [hpower]; exact h.battery, by rw [hpower]; exact h.current,
    fun hm => by rw [hthermal]; exact h.thermal (hmild hm), fun m hm => ?_⟩
  rw [hhistory] at hm
  exact (h.published m hm).later (by rw [hhistory])

theorem speed_onPhysicsTick (s : KinematicsService ℚ) {tick : PhysicsTickPayload}
    (h : ThermalService.Driven (.physicsTick tick)) : |(s.onPhysicsTick tick).speedMps| ≤ 60 := by
  have hspeed : |(tick.speedRpm : ℚ)| ≤ 6000 := by exact_mod_cast h.2
  have hvalue : (s.onPhysicsTick tick).speedMps = (tick.speedRpm : ℚ) * (1 / 100) := rfl
  rw [hvalue, abs_mul, abs_of_pos (by norm_num : (0 : ℚ) < 1 / 100)]
  linarith

theorem speed_onMotorStatus {s : KinematicsService ℚ} (h : |s.speedMps| ≤ 60)
    (ms : MotorStatusPayload) : |(s.onMotorStatus ms).speedMps| ≤ 60 := by
  rw [KinematicsService.onMotorStatus_speedMps]
  split
  · exact h
  · norm_num

/-- The current at a speed within the clamp. -/
theorem current_onPhysicsTick (hpow : PowMonotone pow) (s : PowerService ℚ)
    {tick : PhysicsTickPayload} (h : ThermalService.Driven (.physicsTick tick)) :
    (s.onPhysicsTick pow tick).currentA ∈ Set.Icc 0 (maxCurrentA pow) := by
  have hspeed : |(tick.speedRpm : ℚ)| ≤ 6000 := by exact_mod_cast h.2
  have hvalue : (s.onPhysicsTick pow tick).currentA =
      iIdleA + kRpmPowToAmps * pow |(tick.speedRpm : ℚ)| rpmExpP := by
    simp [onPhysicsTick]
  have hlow := hpow.nonneg _ (abs_nonneg (tick.speedRpm : ℚ))
  have hhigh := hpow.mono _ _ (abs_nonneg (tick.speedRpm : ℚ)) hspeed
  rw [hvalue, maxCurrentA]
  simp only [iIdleA, kRpmPowToAmps, lit_rat]
  exact ⟨by positivity, by linarith⟩

theorem current_onMotorStatus {s : PowerService ℚ}
    (h : s.currentA ∈ Set.Icc 0 (maxCurrentA pow)) (ms : MotorStatusPayload) :
    (s.onMotorStatus ms).currentA ∈ Set.Icc 0 (maxCurrentA pow) := by
  unfold PowerService.onMotorStatus
  dsimp only
  split
  · exact ⟨le_rfl, h.1.trans h.2⟩
  · exact h

theorem lastRpm_onMotorStatus (s : StateService) {ms : MotorStatusPayload} (h : ms.Bounded) :
    |(s.onMotorStatus ms).lastRpm| ≤ 6000 := by
  rw [StateService.onMotorStatus_eq]
  exact abs_le.2 h.speed

/-- The clock only reports the speed it was told, or none. -/
theorem snapshot_driven {s : StateService} (h : |s.lastRpm| ≤ 6000) :
    ThermalService.Driven (.physicsTick (s.snapshot 10000)) := by
  refine ⟨rfl, ?_⟩
  unfold StateService.snapshot
  dsimp only
  split
  · decide
  · exact h

/-- Sections of handlers that are not about the physics keep the envelope. -/
theorem keeps_outside {code : Code (World ℚ) (Msg ℚ)} (hemits : code.Emits fun m => m.id ∉ physical)
    (hpreserves : code.Preserves (InEnvelope pow lo hi)) {A : World ℚ → Prop} :
    code.Keeps (InEnvelope pow lo hi) (fun m w => Fits pow lo hi w m) A :=
  (Code.Keeps.of_preserves hemits hpreserves).mono_pre fun _ _ => fits_of_not_physical

theorem environment_preserves (pf : Platform ℚ) (m : Msg ℚ) :
    (code pf .environment m).Preserves (InEnvelope pow lo hi) := by
  cases m <;> simp only [code, Code.preserves_done, Code.preserves_single]
  case environmentData env => exact fun w hw => hw.congr rfl rfl rfl rfl rfl rfl rfl
  case internalEnvRequest req =>
      refine ⟨fun w hw => hw, fun w => ?_⟩
      dsimp only
      split
      · exact (Code.preserves_single _ _).2 fun w hw => hw.congr rfl rfl rfl rfl rfl rfl rfl
      · trivial

theorem autonomous_preserves (pf : Platform ℚ) (m : Msg ℚ) :
    (code pf .autonomous m).Preserves (InEnvelope pow lo hi) := by
  cases m <;> simp only [code, update, Code.preserves_done, Code.preserves_single]
  case kinematicsData kin =>
      refine ⟨fun w hw => ?_, fun w => ?_⟩
      · unfold requestStretch
        split <;> exact hw.congr rfl rfl rfl rfl rfl rfl rfl
      · dsimp only
        split
        · trivial
        · exact ⟨fun w hw => hw.congr rfl rfl rfl rfl rfl rfl rfl, fun _ =>
            (Code.preserves_single _ _).2 fun w hw => hw.congr rfl rfl rfl rfl rfl rfl rfl⟩
  all_goals exact fun w hw => hw.congr rfl rfl rfl rfl rfl rfl rfl

theorem answers_not_physical {h : Service} (hh : h = .environment ∨ h = .autonomous) (id : MsgId) :
    ∀ id' ∈ h.answers id, id' ∉ physical := by
  rcases hh with rfl | rfl <;> cases id <;> decide

/-- The message is in the history, and fits. -/
def InHistory (pow : ℚ → ℚ → ℚ) (lo hi : ℚ) (m : Msg ℚ) (w : World ℚ) : Prop :=
  .published m ∈ w.history ∧ Fits pow lo hi w m

/-- `MotorService` announces what it does within the clamp. -/
theorem motor_keeps (pf : Platform ℚ) (m : Msg ℚ) :
    (code pf .motor m).Keeps (InEnvelope pow lo hi) (fun m w => Fits pow lo hi w m)
      (InHistory pow lo hi m) := by
  cases m <;> simp only [code, Code.keeps_done, Code.keeps_single]
  case motorSequence cmd =>
      intro w _ hw
      have hexecutes := w.motor.onMotorSequence_executes cmd
      refine ⟨{ hw with motor := ⟨cmd, hexecutes, w.motor.onMotorSequence_remains cmd⟩ }, ?_⟩
      intro m hm
      rw [List.mem_singleton.1 hm, MotorService.onMotorSequence_status]
      exact hexecutes.status_bounded
  case physicsTick tick =>
      intro w _ hw
      obtain ⟨cmd, hexecutes, hremains⟩ := hw.motor
      have hexecutes' := MotorService.onPhysicsTick_executes hexecutes tick
      refine ⟨{ hw with
        motor := ⟨cmd, hexecutes', MotorService.onPhysicsTick_remains hremains tick⟩ }, ?_⟩
      intro m hm
      obtain ⟨ms, hms, rfl⟩ := List.mem_map.1 hm
      rw [MotorService.onPhysicsTick_status (Option.mem_toList.1 hms)]
      exact hexecutes'.status_bounded

theorem kinematics_keeps (pf : Platform ℚ) (m : Msg ℚ) :
    (code pf .kinematics m).Keeps (InEnvelope pow lo hi) (fun m w => Fits pow lo hi w m)
      (InHistory pow lo hi m) := by
  cases m <;> simp only [code, Code.keeps_done, Code.keeps_single, List.not_mem_nil,
    false_imp_iff, implies_true, and_true]
  case physicsTick tick =>
      exact fun w hm hw =>
        { hw with kinematics := speed_onPhysicsTick w.kinematics hm.2 }
  case motorStatus ms =>
      exact fun w _ hw =>
        { hw with kinematics := speed_onMotorStatus hw.kinematics ms }
  case kinematicsRequest =>
      refine fun w _ hw => ⟨hw, fun m hm => ?_⟩
      rw [List.mem_singleton.1 hm]
      exact hw.kinematics

theorem power_keeps (pf : Platform ℚ) (hpow : PowMonotone pf.pow) (m : Msg ℚ) :
    (code pf .power m).Keeps (InEnvelope pf.pow lo hi) (fun m w => Fits pf.pow lo hi w m)
      (InHistory pf.pow lo hi m) := by
  cases m <;> simp only [code, Code.keeps_done, Code.keeps_single, List.not_mem_nil,
    false_imp_iff, implies_true, and_true]
  case physicsTick tick =>
      exact fun w hm hw => { hw with
        battery := (hw.battery.step hpow (.physicsTick tick)).1
        current := current_onPhysicsTick hpow w.power hm.2 }
  case motorStatus ms =>
      exact fun w _ hw => { hw with
        battery := (hw.battery.step hpow (.motorStatus ms)).1
        current := current_onMotorStatus hw.current ms }
  case powerRequest =>
      refine fun w _ hw => ⟨hw, fun m hm => ?_⟩
      rw [List.mem_singleton.1 hm]
      exact ⟨hw.battery.voltage, hw.battery.soc, hw.current⟩

theorem state_keeps (pf : Platform ℚ) (m : Msg ℚ) :
    (code pf .state m).Keeps (InEnvelope pow lo hi) (fun m w => Fits pow lo hi w m)
      (InHistory pow lo hi m) := by
  cases m <;> simp only [code, Code.keeps_done, Code.keeps_single, List.not_mem_nil,
    false_imp_iff, implies_true, and_true]
  case motorStatus ms =>
      exact fun w hm hw =>
        { hw with state := lastRpm_onMotorStatus w.state hm.2 }
  case stateRequest =>
      refine fun w _ hw => ⟨hw, fun m hm => ?_⟩
      rw [List.mem_singleton.1 hm]
      trivial

theorem thermal_keeps (pf : Platform ℚ) (m : Msg ℚ) :
    (code pf .thermal m).Keeps (InEnvelope pow lo hi) (fun m w => Fits pow lo hi w m)
      (InHistory pow lo hi m) := by
  cases m <;> simp only [code, Code.keeps_done, Code.keeps_single, List.not_mem_nil,
    false_imp_iff, implies_true, and_true]
  case physicsTick tick =>
      refine fun w hm hw => { hw with thermal := fun hmild => ?_ }
      exact (hw.thermal hmild).step (i := .physicsTick tick) hm.2
  case environmentData env =>
      refine fun w hm hw => { hw with thermal := fun hmild => ?_ }
      -- The ambient temperature received does not widen a range it is in.
      have hrange := hmild env hm.1
      have hstep := (hw.thermal hmild).step (i := .environmentData env) trivial
      exact hstep.mono (le_min le_rfl hrange.1) (max_le le_rfl hrange.2)
  case thermalRequest =>
      refine fun w _ hw => ⟨hw, fun m hm => ?_⟩
      rw [List.mem_singleton.1 hm]
      exact fun hmild => ⟨(hw.thermal hmild).motor, (hw.thermal hmild).battery⟩

/-! ## The guarantee -/

theorem bus_guarantee (pf : Platform ℚ) (hpow : PowMonotone pf.pow) (lo hi : ℚ) :
    Guarantee (bus pf) (fun w w' => w.history <:+ w'.history) (InEnvelope pf.pow lo hi)
      (fun m w => Fits pf.pow lo hi w m) (InHistory pf.pow lo hi) where
  grows := bus_grows pf
  pre_mono m w w' hle hm := hm.later hle
  rec_mono m w w' hle hm := ⟨hle.subset hm.1, hm.2.later hle⟩
  code := by
    intro m h _
    show (code pf h m).Keeps _ _ _
    cases h with
    | motor => exact motor_keeps pf m
    | kinematics => exact kinematics_keeps pf m
    | power => exact power_keeps pf hpow m
    | state => exact state_keeps pf m
    | thermal => exact thermal_keeps pf m
    | environment =>
        exact keeps_outside ((code_emits pf .environment m).mono
          (fun _ => answers_not_physical (.inl rfl) m.id _)) (environment_preserves pf m)
    | autonomous =>
        exact keeps_outside ((code_emits pf .autonomous m).mono
          (fun _ => answers_not_physical (.inr rfl) m.id _)) (autonomous_preserves pf m)
    | log => cases m <;> trivial
    | udpBridge => cases m <;> trivial
  record m w hm hw := by
    have hle : w.history <:+ ((bus pf).record m w).history := List.suffix_cons _ _
    refine ⟨{ hw with thermal := ?_, published := ?_ }, List.mem_cons_self, hm.later hle⟩
    · exact fun hmild => hw.thermal (hmild.earlier hle)
    · intro m' hm'
      rcases List.mem_cons.1 hm' with heq | hm'
      · obtain rfl := Record.published.inj heq
        exact hm.later hle
      · exact (hw.published m' hm').later hle

/-- What the threads start keeps the envelope: the tick the clock publishes is its own snapshot, and
    nothing the bridge accepts is about the physics. -/
theorem start_keeps (pf : Platform ℚ) (hdt : pf.kTickUs = 10000) {pow : ℚ → ℚ → ℚ} {t : Thread}
    {w w' : World ℚ} {ms : List (Msg ℚ)} (hstart : Start pf t w w' ms)
    (hw : InEnvelope pow lo hi w) :
    w.history <:+ w'.history ∧ InEnvelope pow lo hi w' ∧ ∀ m ∈ ms, Fits pow lo hi w' m := by
  cases hstart with
  | snapshot hnone =>
      have hle : w.history <:+ (takeSnapshot pf w).1.history := List.suffix_cons _ _
      refine ⟨hle, { hw with clock := ?_, thermal := ?_, published := ?_ },
        fun _ hm => absurd hm List.not_mem_nil⟩
      · intro tick htick
        rw [← Option.some.inj htick, takeSnapshot, hdt]
        exact snapshot_driven hw.state
      · exact fun hmild => hw.thermal (hmild.earlier hle)
      · intro m hm
        rcases List.mem_cons.1 hm with heq | hm
        · exact nomatch heq
        · exact (hw.published m hm).later hle
  | tick htick =>
      refine ⟨List.suffix_rfl, { hw with clock := nofun }, fun m hm => ?_⟩
      rw [List.mem_singleton.1 hm]
      exact hw.clock _ htick
  | @datagram _ m hauth =>
      refine ⟨List.suffix_rfl, hw, fun m' hm' => ?_⟩
      rw [List.mem_singleton.1 hm']
      refine fits_of_not_physical fun hphysical => ?_
      have hmem := of_decide_eq_true hauth
      revert hmem hphysical
      cases m.id <;> decide
  | wait hnow =>
      exact ⟨List.suffix_rfl, { hw with }, fun _ hm => absurd hm List.not_mem_nil⟩

theorem init_inEnvelope (hpow : PowMonotone pow) (hlo : lo ≤ 20) (hhi : 20 ≤ hi) :
    InEnvelope pow lo hi World.init where
  motor := ⟨default, MotorService.init_executes, fun h => absurd h Bool.false_ne_true⟩
  state := by decide
  clock := nofun
  kinematics := by
    show |(0 : ℚ)| ≤ 60
    norm_num
  battery := init_charged
  current := by
    have hnonneg := hpow.nonneg 6000 (by norm_num)
    refine ⟨le_rfl, ?_⟩
    show 0 ≤ maxCurrentA pow
    simp only [maxCurrentA, iIdleA, kRpmPowToAmps, lit_rat]
    positivity
  thermal := fun _ => ThermalService.Within.init.mono hlo hhi
  published := fun _ hm => absurd hm List.not_mem_nil

/-- **The operating envelope**: in every reachable configuration the motor is within its bounds, the
    speed reported to the clock within 6000 rpm, the vehicle's within 60 m/s, the voltage between
    10.5 V and 12.6 V and the state of charge that of the voltage, the current at most the one at
    full speed, and both temperatures between the lowest ambient temperature received and 600
    degrees above the highest; and no message ever published was out of these bounds. -/
theorem reachable_envelope (pf : Platform ℚ) (hdt : pf.kTickUs = 10000)
    (hpow : PowMonotone pf.pow) {lo hi : ℚ} (hlo : lo ≤ 20) (hhi : 20 ≤ hi) {c : AppConfig ℚ}
    (hreach : Reachable pf c) (hmild : Mild lo hi c.world) :
    c.world.motor.Bounded ∧ |c.world.state.lastRpm| ≤ 6000 ∧ |c.world.kinematics.speedMps| ≤ 60 ∧
      (c.world.power.voltageV ∈ Set.Icc (vMin : ℚ) vMax ∧
        c.world.power.soc = percent c.world.power.voltageV ∧
        c.world.power.currentA ∈ Set.Icc 0 (maxCurrentA pf.pow)) ∧
      c.world.thermal.Within lo hi ∧
      ∀ m, .published m ∈ c.world.history → Fits pf.pow lo hi c.world m := by
  have hholds := (bus_guarantee pf hpow lo hi).run (S := machine pf)
    (fun t w w' ms hstart hw => start_keeps pf hdt hstart hw) hreach
    ⟨init_inEnvelope hpow hlo hhi, fun t f hf => absurd hf List.not_mem_nil⟩
  obtain ⟨cmd, hexecutes, hremains⟩ := hholds.world.motor
  exact ⟨hexecutes.bounded hremains, hholds.world.state, hholds.world.kinematics,
    ⟨hholds.world.battery.voltage, hholds.world.battery.soc, hholds.world.current⟩,
    hholds.world.thermal hmild, hholds.world.published⟩

/-- A command of two steps, and a tick in the first of them. -/
def halfSpeed : List (Move ℚ) :=
  .datagram (.motorSequence
      { cmdId := 7, numSteps := 2,
        steps := StdArray.set (fun _ => ⟨-1024, 10000⟩) 0 ⟨3125, 30000⟩ }) ::
    List.replicate 12 (.advance .bridge) ++ [.snapshot, .tick] ++
    List.replicate 12 (.advance .clock)

theorem halfSpeed_envelope : ∃ c : AppConfig ℚ, c.world.kinematics.speedMps = 125 / 4 ∧
    |c.world.kinematics.speedMps| ≤ 60 ∧ c.world.thermal.motorTempC ∈ Set.Icc 20 620 := by
  have hplay : ((play (.libstdcxx PowerService.powSteps) (fun _ _ => True) start halfSpeed).map
      fun c => (c.world.kinematics.speedMps, c.world.history.all fun
        | .published m => decide (m.id ≠ .environmentData)
        | .snapshot _ => true)) = some (125 / 4, true) := by
    decide +kernel
  obtain ⟨c, hc, hfacts⟩ := Option.map_eq_some_iff.1 hplay
  obtain ⟨hspeed, hnone⟩ := Prod.mk.inj hfacts
  have hmild : Mild 20 20 c.world := fun env henv =>
    absurd (List.all_eq_true.1 hnone _ henv) (by simp [Msg.id])
  obtain ⟨-, -, hbound, -, hthermal, -⟩ := reachable_envelope (.libstdcxx PowerService.powSteps) rfl
    PowerService.powSteps_monotone le_rfl le_rfl (play_run hc) hmild
  refine ⟨c, hspeed, hbound, ?_⟩
  have hmotor := hthermal.motor
  norm_num at hmotor
  exact hmotor

end App

end ReflectPytest
