import Mathlib.Tactic.Linarith
import Mathlib.Tactic.NormNum
import Mathlib.Tactic.Positivity
import ReflectPytest.Services.Physics

set_option autoImplicit false

/-! # The battery only drains

A tick lowers the voltage by a drop that grows with the speed (`drop_mono`), and the lower bound
cuts it off. Voltage and state of charge never rise, and a run at higher speeds never has more of
either, whatever else arrives in between. All of it in exact arithmetic, for any `std::pow` that is
non-negative and monotone. -/

namespace ReflectPytest

open FloatOps hiding max

/-- What is assumed of `std::pow` with the exponent `RPM_EXP_P`. -/
structure PowMonotone (pow : ℚ → ℚ → ℚ) : Prop where
  nonneg : ∀ x, 0 ≤ x → 0 ≤ pow x rpmExpP
  mono : ∀ x y, 0 ≤ x → x ≤ y → pow x rpmExpP ≤ pow y rpmExpP

namespace PowerService

/-! ## The service on its own -/

inductive Input where
  | physicsTick (tick : PhysicsTickPayload)
  | motorStatus (ms : MotorStatusPayload)
  | powerRequest

section

variable (pow : ℚ → ℚ → ℚ)

/-- Deliver one message. -/
def step (s : PowerService ℚ) : Input → PowerService ℚ
  | .physicsTick tick => s.onPhysicsTick pow tick
  | .motorStatus ms => s.onMotorStatus ms
  | .powerRequest => s

/-- Deliver a history of messages. -/
def run (s : PowerService ℚ) (history : List Input) : PowerService ℚ := history.foldl (step pow) s

/-- The ticks of a history. -/
def ticks (history : List Input) : List PhysicsTickPayload :=
  history.filterMap fun i => match i with
    | .physicsTick tick => some tick
    | _ => none

/-- The voltage a tick takes off. -/
def drop (tick : PhysicsTickPayload) : ℚ :=
  (iIdleA + kRpmPowToAmps * pow |(tick.speedRpm : ℚ)| rpmExpP) * rIntOhm * tick.dtS

end

/-- The charge of a battery at a voltage, in percent. -/
def percent (v : ℚ) : Int := ⌊100 * (v - vMin) / (vMax - vMin)⌋

/-! ## One tick -/

section

variable {pow : ℚ → ℚ → ℚ}

theorem onPhysicsTick_voltageV (s : PowerService ℚ) (tick : PhysicsTickPayload) :
    (s.onPhysicsTick pow tick).voltageV = max vMin (s.voltageV - drop pow tick) := by
  unfold onPhysicsTick drop FloatOps.max
  simp only [abs_rat, ofInt_rat, lt_rat, decide_eq_true_eq]
  split
  · next h => exact (max_eq_right h.le).symm
  · next h => exact (max_eq_left (not_lt.1 h)).symm

/-- In the range of the voltage the clamp changes nothing. -/
theorem trunc_clamp {v : ℚ} (h : v ∈ Set.Icc (vMin : ℚ) vMax) :
    trunc (clamp ((v - vMin) / (vMax - vMin) * lit 100) (lit 0 : ℚ) (lit 100)) = percent v := by
  have hrange : (0 : ℚ) < vMax - vMin := by norm_num [vMax, vMin]
  have hlow : 0 ≤ (v - vMin) / (vMax - vMin) := div_nonneg (sub_nonneg.2 h.1) hrange.le
  have hhigh : (v - vMin) / (vMax - vMin) ≤ 1 :=
    (div_le_one hrange).2 (sub_le_sub_right h.2 _)
  have hclamp : clamp ((v - vMin) / (vMax - vMin) * lit 100) (lit 0 : ℚ) (lit 100) =
      100 * (v - vMin) / (vMax - vMin) := by
    simp only [clamp, lt_rat, lit_rat, decide_eq_true_eq]
    rw [if_neg (by linarith), if_neg (by linarith)]
    ring
  have hnonneg : 0 ≤ 100 * (v - vMin) / (vMax - vMin) := by
    have hsub := sub_nonneg.2 h.1
    positivity
  rw [hclamp]
  exact if_pos hnonneg

theorem onPhysicsTick_soc (s : PowerService ℚ) (tick : PhysicsTickPayload)
    (h : (s.onPhysicsTick pow tick).voltageV ∈ Set.Icc (vMin : ℚ) vMax) :
    (s.onPhysicsTick pow tick).soc = percent (s.onPhysicsTick pow tick).voltageV :=
  trunc_clamp h

theorem percent_mono {v w : ℚ} (h : v ≤ w) : percent v ≤ percent w := by
  have hrange : (0 : ℚ) < vMax - vMin := by norm_num [vMax, vMin]
  refine Int.floor_le_floor (div_le_div_of_nonneg_right ?_ hrange.le)
  linarith

theorem dtS_nonneg (tick : PhysicsTickPayload) : (0 : ℚ) ≤ tick.dtS := by
  unfold PhysicsTickPayload.dtS
  simp only [ofInt_rat, lit_rat]
  positivity

theorem drop_nonneg (hpow : PowMonotone pow) (tick : PhysicsTickPayload) : 0 ≤ drop pow tick := by
  have hp := hpow.nonneg _ (abs_nonneg (tick.speedRpm : ℚ))
  have hdt := dtS_nonneg tick
  simp only [drop, iIdleA, kRpmPowToAmps, rIntOhm, lit_rat]
  positivity

/-- **More speed takes off more.** -/
theorem drop_mono (hpow : PowMonotone pow) {tick tick' : PhysicsTickPayload}
    (hdt : tick.dtUs = tick'.dtUs) (hspeed : |tick.speedRpm| ≤ |tick'.speedRpm|) :
    drop pow tick ≤ drop pow tick' := by
  have hspeed' : |(tick.speedRpm : ℚ)| ≤ |(tick'.speedRpm : ℚ)| := by exact_mod_cast hspeed
  have hp := hpow.mono _ _ (abs_nonneg (tick.speedRpm : ℚ)) hspeed'
  have hsame : (tick.dtS : ℚ) = tick'.dtS := by
    unfold PhysicsTickPayload.dtS
    rw [hdt]
  have hnonneg := dtS_nonneg tick'
  simp only [drop, iIdleA, kRpmPowToAmps, rIntOhm, lit_rat, hsame]
  refine mul_le_mul_of_nonneg_right ?_ hnonneg
  linarith

/-! ## The invariant -/

/-- The voltage is in its range, and the state of charge is that of the voltage. -/
structure Charged (s : PowerService ℚ) : Prop where
  voltage : s.voltageV ∈ Set.Icc (vMin : ℚ) vMax
  soc : s.soc = percent s.voltageV

theorem init_charged : (init : PowerService ℚ).Charged := by
  refine ⟨⟨?_, le_refl vMax⟩, ?_⟩
  · norm_num [init, vMin, vMax]
  · norm_num [init, percent, vMin, vMax]

/-- **Step lemma.** Nothing rises. -/
theorem Charged.step {s : PowerService ℚ} (h : s.Charged) (hpow : PowMonotone pow) (i : Input) :
    (s.step pow i).Charged ∧ (s.step pow i).voltageV ≤ s.voltageV ∧
      (s.step pow i).soc ≤ s.soc := by
  cases i with
  | motorStatus ms => exact ⟨⟨h.voltage, h.soc⟩, le_rfl, le_rfl⟩
  | powerRequest => exact ⟨h, le_rfl, le_rfl⟩
  | physicsTick tick =>
      have hdrop := drop_nonneg hpow tick
      have hlower : (s.onPhysicsTick pow tick).voltageV ≤ s.voltageV := by
        rw [onPhysicsTick_voltageV]
        exact max_le h.voltage.1 (by linarith)
      have hrange : (s.onPhysicsTick pow tick).voltageV ∈ Set.Icc (vMin : ℚ) vMax := by
        refine ⟨?_, hlower.trans h.voltage.2⟩
        rw [onPhysicsTick_voltageV]
        exact le_max_left _ _
      have hsoc := onPhysicsTick_soc s tick hrange
      refine ⟨⟨hrange, hsoc⟩, hlower, ?_⟩
      show (s.onPhysicsTick pow tick).soc ≤ s.soc
      rw [hsoc, h.soc]
      exact percent_mono hlower

/-- **Run lemma.** -/
theorem Charged.run {s : PowerService ℚ} (h : s.Charged) (hpow : PowMonotone pow)
    (history : List Input) : (s.run pow history).Charged ∧
      (s.run pow history).voltageV ≤ s.voltageV ∧ (s.run pow history).soc ≤ s.soc := by
  induction history generalizing s with
  | nil => exact ⟨h, le_rfl, le_rfl⟩
  | cons i history ih =>
      obtain ⟨hstep, hv, hsoc⟩ := h.step hpow i
      obtain ⟨hrun, hv', hsoc'⟩ := ih hstep
      exact ⟨hrun, hv'.trans hv, hsoc'.trans hsoc⟩

/-! ## Two runs -/

/-- The voltage after some ticks. -/
def drained (pow : ℚ → ℚ → ℚ) (v : ℚ) (ts : List PhysicsTickPayload) : ℚ :=
  ts.foldl (fun v tick => max vMin (v - drop pow tick)) v

/-- Only the ticks count for the voltage. -/
theorem run_voltageV (s : PowerService ℚ) (history : List Input) :
    (s.run pow history).voltageV = drained pow s.voltageV (ticks history) := by
  induction history generalizing s with
  | nil => rfl
  | cons i history ih =>
      have hrest := ih (s.step pow i)
      cases i with
      | motorStatus ms => exact hrest
      | powerRequest => exact hrest
      | physicsTick tick =>
          refine hrest.trans ?_
          show drained pow (s.onPhysicsTick pow tick).voltageV (ticks history) = _
          rw [onPhysicsTick_voltageV]
          rfl

/-- The same ticks, as long, at lower or equal speeds. -/
def Slower (ts ts' : List PhysicsTickPayload) : Prop :=
  List.Forall₂ (fun t t' => t.dtUs = t'.dtUs ∧ |t.speedRpm| ≤ |t'.speedRpm|) ts ts'

/-- **The slower run keeps more**, also when the faster one has reached the lower bound. -/
theorem drained_mono (hpow : PowMonotone pow) {ts ts' : List PhysicsTickPayload}
    (h : Slower ts ts') {v v' : ℚ} (hv : v' ≤ v) : drained pow v' ts' ≤ drained pow v ts := by
  induction h generalizing v v' with
  | nil => exact hv
  | cons htick _ ih =>
      have hdrop := drop_mono hpow htick.1 htick.2
      exact ih (max_le_max le_rfl (by linarith))

/-- **The battery only drains, and faster at higher speeds**: after every history the voltage is in
    its range and the state of charge is that of the voltage; neither rises with the next message;
    and no history with the same ticks at speeds as high or higher leaves more of either. -/
theorem run_drains (hpow : PowMonotone pow) (history : List Input) :
    let s := init.run pow history
    (vMin ≤ s.voltageV ∧ s.voltageV ≤ vMax ∧
        s.soc = ⌊100 * (s.voltageV - vMin) / (vMax - vMin)⌋) ∧
      (∀ i, (s.step pow i).voltageV ≤ s.voltageV ∧ (s.step pow i).soc ≤ s.soc) ∧
      ∀ history', Slower (ticks history) (ticks history') →
        (init.run pow history').voltageV ≤ s.voltageV ∧ (init.run pow history').soc ≤ s.soc := by
  intro s
  have hcharged := (init_charged.run hpow history).1
  refine ⟨⟨hcharged.voltage.1, hcharged.voltage.2, hcharged.soc⟩,
    fun i => (hcharged.step hpow i).2, fun history' hslower => ?_⟩
  have hvoltage : (init.run pow history').voltageV ≤ s.voltageV := by
    rw [run_voltageV, run_voltageV]
    exact drained_mono hpow hslower le_rfl
  refine ⟨hvoltage, ?_⟩
  rw [(init_charged.run hpow history').1.soc, hcharged.soc]
  exact percent_mono hvoltage

/-- A monotone function with the values of `std::pow(x, 1.6)` at 0 and at the fifth powers from 32
    to 3125: that of `n ^ 5` is `n ^ 8`. -/
def powSteps (x _ : ℚ) : ℚ :=
  if x < 32 then 0 else if x < 243 then 256 else if x < 1024 then 6561
  else if x < 3125 then 65536 else 390625

theorem powSteps_monotone : PowMonotone powSteps := by
  refine ⟨fun x _ => ?_, fun x y _ hxy => ?_⟩
  · unfold powSteps
    split_ifs <;> norm_num
  · unfold powSteps
    split_ifs <;> linarith

/-- Ticks at 243 rpm and at rest, and faster ones with a status in between. -/
theorem run_drains_two : (init.run powSteps [.physicsTick ⟨7, -1024, 10000⟩,
      .motorStatus ⟨7, 32, true⟩, .physicsTick ⟨7, 32, 10000⟩]).voltageV ≤
    (init.run powSteps [.physicsTick ⟨7, 243, 10000⟩, .motorStatus ⟨7, 0, false⟩,
      .physicsTick ⟨7, 0, 10000⟩]).voltageV := by
  refine ((run_drains powSteps_monotone _).2.2 _ ?_).1
  exact .cons ⟨rfl, by decide⟩ (.cons ⟨rfl, by decide⟩ .nil)

end

end PowerService

end ReflectPytest
