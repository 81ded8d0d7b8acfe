import Mathlib.Order.Interval.Set.UnorderedInterval
import Mathlib.Tactic.Linarith
import Mathlib.Tactic.Ring
import ReflectPytest.Services.Physics

set_option autoImplicit false

/-! # Thermal stability

A tick of 10 ms is a convex combination of a temperature and its equilibrium, the ambient
temperature plus heat rate over cooling coefficient (`onPhysicsTick_relax`). So no temperature
passes its equilibrium, and none leaves the range of the ambients received and of the equilibria
above them. All of it in exact arithmetic. -/

namespace ReflectPytest

/-! ## Relaxation -/

/-- Go the part `k` of the way to the target. -/
def relax (k target x : ℚ) : ℚ := x + k * (target - x)

section

variable {k : ℚ}

/-- The distance to the target shrinks by the factor `1 - k`. -/
theorem relax_sub (k target x : ℚ) : relax k target x - target = (1 - k) * (x - target) := by
  unfold relax
  ring

/-- On the way to the target, which is not passed. -/
theorem relax_mem_uIcc (hk : 0 ≤ k ∧ k ≤ 1) (target x : ℚ) :
    relax k target x ∈ Set.uIcc x target := by
  unfold relax
  rcases le_total x target with h | h
  · rw [Set.uIcc_of_le h]
    have hstep : 0 ≤ k * (target - x) := mul_nonneg hk.1 (sub_nonneg.2 h)
    have hroom : 0 ≤ (1 - k) * (target - x) := mul_nonneg (sub_nonneg.2 hk.2) (sub_nonneg.2 h)
    exact ⟨by linarith, by linarith⟩
  · rw [Set.uIcc_of_ge h]
    have hstep : 0 ≤ k * (x - target) := mul_nonneg hk.1 (sub_nonneg.2 h)
    have hroom : 0 ≤ (1 - k) * (x - target) := mul_nonneg (sub_nonneg.2 hk.2) (sub_nonneg.2 h)
    exact ⟨by linarith, by linarith⟩

end

namespace ThermalService

/-! ## The service on its own -/

inductive Input where
  | physicsTick (tick : PhysicsTickPayload)
  | environmentData (env : EnvironmentPayload ℚ)
  | thermalRequest

/-- Deliver one message. -/
def step (s : ThermalService ℚ) : Input → ThermalService ℚ
  | .physicsTick tick => s.onPhysicsTick tick
  | .environmentData env => s.onEnvironmentData env
  | .thermalRequest => s

/-- Deliver a history of messages. -/
def run (s : ThermalService ℚ) (history : List Input) : ThermalService ℚ := history.foldl step s

/-- The ambient temperature in a message. -/
def Input.ambientTempC : Input → Option ℚ
  | .environmentData env => some env.ambientTempC
  | _ => none

/-- The ambient temperatures received. -/
def ambients (history : List Input) : List ℚ := history.filterMap Input.ambientTempC

/-- A tick of 10 ms at a speed within the clamp of the motor, or no tick. -/
def Driven : Input → Prop
  | .physicsTick tick => tick.dtUs = 10000 ∧ |tick.speedRpm| ≤ 6000
  | _ => True

/-! ## One tick -/

/-- The equilibrium of the motor: the ambient temperature plus heat rate over cooling
    coefficient. -/
def motorEquilibrium (s : ThermalService ℚ) (speedRpm : Int) : ℚ :=
  s.ambientTempC + |(speedRpm : ℚ)| * (5 / 1000) / (5 / 100)

/-- The equilibrium of the battery. -/
def batteryEquilibrium (s : ThermalService ℚ) (speedRpm : Int) : ℚ :=
  s.ambientTempC + |(speedRpm : ℚ)| * (2 / 1000) / (2 / 100)

theorem equilibrium_of_zero (s : ThermalService ℚ) :
    s.motorEquilibrium 0 = s.ambientTempC ∧ s.batteryEquilibrium 0 = s.ambientTempC := by
  simp [motorEquilibrium, batteryEquilibrium]

/-- At full speed the equilibrium is 600 degrees above the ambient temperature. -/
theorem equilibrium_mem_Icc (s : ThermalService ℚ) {speedRpm : Int} (h : |speedRpm| ≤ 6000) :
    s.motorEquilibrium speedRpm ∈ Set.Icc s.ambientTempC (s.ambientTempC + 600) ∧
      s.batteryEquilibrium speedRpm ∈ Set.Icc s.ambientTempC (s.ambientTempC + 600) := by
  have hspeed : |(speedRpm : ℚ)| ≤ 6000 := by exact_mod_cast h
  have hnonneg := abs_nonneg (speedRpm : ℚ)
  unfold motorEquilibrium batteryEquilibrium
  refine ⟨⟨?_, ?_⟩, ⟨?_, ?_⟩⟩ <;> linarith

/-- **Both Euler steps are relaxations toward the equilibrium.** -/
theorem onPhysicsTick_relax (s : ThermalService ℚ) {tick : PhysicsTickPayload}
    (hdt : tick.dtUs = 10000) : s.onPhysicsTick tick =
      { s with
        motorTempC := relax (5 / 10000) (s.motorEquilibrium tick.speedRpm) s.motorTempC
        batteryTempC :=
          relax (2 / 10000) (s.batteryEquilibrium tick.speedRpm) s.batteryTempC } := by
  unfold onPhysicsTick relax motorEquilibrium batteryEquilibrium PhysicsTickPayload.dtS
  simp only [hdt, FloatOps.ofInt_rat, FloatOps.lit_rat, Int.cast_abs]
  congr 1 <;> push_cast <;> ring

/-! ## Bounds -/

/-- Everything between `lo` and `hi`, with room for the heat of the motor above. -/
structure Within (lo hi : ℚ) (s : ThermalService ℚ) : Prop where
  ambient : s.ambientTempC ∈ Set.Icc lo hi
  motor : s.motorTempC ∈ Set.Icc lo (hi + 600)
  battery : s.batteryTempC ∈ Set.Icc lo (hi + 600)

theorem Within.mono {lo hi lo' hi' : ℚ} {s : ThermalService ℚ} (h : s.Within lo hi)
    (hlo : lo' ≤ lo) (hhi : hi ≤ hi') : s.Within lo' hi' where
  ambient := Set.Icc_subset_Icc hlo hhi h.ambient
  motor := Set.Icc_subset_Icc hlo (add_le_add_left hhi 600) h.motor
  battery := Set.Icc_subset_Icc hlo (add_le_add_left hhi 600) h.battery

theorem Within.init : (init : ThermalService ℚ).Within 20 20 := by
  constructor <;> simp [ThermalService.init]

/-- A relaxation stays in an interval with its target. -/
theorem relax_mem_Icc {k target x lo hi : ℚ} (hk : 0 ≤ k ∧ k ≤ 1) (htarget : target ∈ Set.Icc lo hi)
    (hx : x ∈ Set.Icc lo hi) : relax k target x ∈ Set.Icc lo hi :=
  Set.uIcc_subset_Icc hx htarget (relax_mem_uIcc hk target x)

/-- **Step lemma.** An ambient temperature received widens the bounds, nothing else does. -/
theorem Within.step {lo hi : ℚ} {s : ThermalService ℚ} (h : s.Within lo hi) {i : Input}
    (hi' : Driven i) :
    (s.step i).Within ((ambients [i]).foldl min lo) ((ambients [i]).foldl max hi) := by
  cases i with
  | thermalRequest => exact h
  | environmentData env =>
      have hwide := h.mono (min_le_left lo env.ambientTempC) (le_max_left hi env.ambientTempC)
      exact ⟨⟨min_le_right _ _, le_max_right _ _⟩, hwide.motor, hwide.battery⟩
  | physicsTick tick =>
      obtain ⟨hdt, hspeed⟩ := hi'
      obtain ⟨hmotor, hbattery⟩ := s.equilibrium_mem_Icc hspeed
      have hroom : Set.Icc s.ambientTempC (s.ambientTempC + 600) ⊆ Set.Icc lo (hi + 600) :=
        Set.Icc_subset_Icc h.ambient.1 (add_le_add_left h.ambient.2 600)
      have hstep : s.step (.physicsTick tick) = s.onPhysicsTick tick := rfl
      rw [hstep, onPhysicsTick_relax s hdt]
      exact ⟨h.ambient, relax_mem_Icc (by norm_num) (hroom hmotor) h.motor,
        relax_mem_Icc (by norm_num) (hroom hbattery) h.battery⟩

/-- **Run lemma.** -/
theorem Within.run {lo hi : ℚ} {s : ThermalService ℚ} (h : s.Within lo hi) {history : List Input}
    (hdriven : ∀ i ∈ history, Driven i) :
    (s.run history).Within ((ambients history).foldl min lo) ((ambients history).foldl max hi) := by
  induction history generalizing lo hi s with
  | nil => exact h
  | cons i history ih =>
      have hrest := ih (h.step (hdriven i List.mem_cons_self)) fun j hj =>
        hdriven j (List.mem_cons_of_mem i hj)
      rw [← List.foldl_append, ← List.foldl_append] at hrest
      have hambients : ambients (i :: history) = ambients [i] ++ ambients history :=
        List.filterMap_append (l := [i])
      rw [hambients]
      exact hrest

/-! ## Cooling -/

/-- **Ticks at no speed** bring both temperatures closer to the ambient one by a fixed factor. -/
theorem run_cools (ticks : List PhysicsTickPayload) (s : ThermalService ℚ)
    (hticks : ∀ tick ∈ ticks, tick.dtUs = 10000 ∧ tick.speedRpm = 0) :
    let s' := s.run (ticks.map .physicsTick)
    s'.ambientTempC = s.ambientTempC ∧
      s'.motorTempC - s.ambientTempC =
        (1 - 5 / 10000) ^ ticks.length * (s.motorTempC - s.ambientTempC) ∧
      s'.batteryTempC - s.ambientTempC =
        (1 - 2 / 10000) ^ ticks.length * (s.batteryTempC - s.ambientTempC) := by
  induction ticks generalizing s with
  | nil => simp [run]
  | cons tick ticks ih =>
      obtain ⟨hdt, hspeed⟩ := hticks tick List.mem_cons_self
      obtain ⟨hmotor, hbattery⟩ := s.equilibrium_of_zero
      have hstep := onPhysicsTick_relax s hdt
      rw [hspeed, hmotor, hbattery] at hstep
      obtain ⟨hambient, hm, hb⟩ := ih (s.onPhysicsTick tick) fun t ht =>
        hticks t (List.mem_cons_of_mem _ ht)
      have hsame : (s.onPhysicsTick tick).ambientTempC = s.ambientTempC := rfl
      rw [hsame] at hambient hm hb
      refine ⟨hambient, hm.trans ?_, hb.trans ?_⟩
      · rw [hstep, relax_sub, List.length_cons, pow_succ, mul_assoc]
      · rw [hstep, relax_sub, List.length_cons, pow_succ, mul_assoc]

/-- **Thermal stability**: after every history of ticks of 10 ms within the motor's clamp and of
    ambient temperatures, both temperatures are between the lowest of 20 and the ambients received
    and 600 above the highest; the next such tick moves both toward their equilibria without passing
    them; and ticks at no speed let them approach the ambient temperature from their own side. -/
theorem run_stable (history : List Input) (hdriven : ∀ i ∈ history, Driven i) :
    let s := init.run history
    let range := Set.Icc ((ambients history).foldl min 20) ((ambients history).foldl max 20 + 600)
    (s.motorTempC ∈ range ∧ s.batteryTempC ∈ range) ∧
      (∀ tick, Driven (.physicsTick tick) →
        let motor := s.motorEquilibrium tick.speedRpm
        let battery := s.batteryEquilibrium tick.speedRpm
        let s' := s.step (.physicsTick tick)
        (s'.motorTempC ∈ Set.uIcc s.motorTempC motor ∧
            s'.motorTempC - motor = (1 - 5 / 10000) * (s.motorTempC - motor)) ∧
          s'.batteryTempC ∈ Set.uIcc s.batteryTempC battery ∧
            s'.batteryTempC - battery = (1 - 2 / 10000) * (s.batteryTempC - battery)) ∧
      ∀ ticks : List PhysicsTickPayload, (∀ tick ∈ ticks, tick.dtUs = 10000 ∧ tick.speedRpm = 0) →
        let s' := s.run (ticks.map .physicsTick)
        s'.motorTempC - s.ambientTempC =
            (1 - 5 / 10000) ^ ticks.length * (s.motorTempC - s.ambientTempC) ∧
          s'.batteryTempC - s.ambientTempC =
            (1 - 2 / 10000) ^ ticks.length * (s.batteryTempC - s.ambientTempC) := by
  intro s range
  have hwithin := Within.init.run hdriven
  refine ⟨⟨hwithin.motor, hwithin.battery⟩, fun tick htick => ?_, fun ticks hticks => ?_⟩
  · intro motor battery s'
    have hstep : s' = _ := onPhysicsTick_relax s htick.1
    rw [hstep]
    exact ⟨⟨relax_mem_uIcc (by norm_num) _ _, relax_sub _ _ _⟩,
      relax_mem_uIcc (by norm_num) _ _, relax_sub _ _ _⟩
  · exact (run_cools ticks s hticks).2

/-- A cold region, and a tick at full speed in it. -/
def winterDrive : List Input :=
  [.environmentData ⟨1, ⟨⟨0, 0⟩, ⟨10, 1⟩⟩, -15, 0, 1, 1000⟩, .physicsTick ⟨7, 6000, 10000⟩]

theorem winterDrive_stable : (init.run winterDrive).motorTempC ∈ Set.Icc (-15 : ℚ) 620 := by
  have hdriven : ∀ i ∈ winterDrive, Driven i := by
    simp [winterDrive, Driven]
  obtain ⟨⟨hmotor, -⟩, -⟩ := run_stable winterDrive hdriven
  have hambients : ambients winterDrive = [-15] := rfl
  norm_num [hambients] at hmotor
  exact hmotor

end ThermalService

end ReflectPytest
