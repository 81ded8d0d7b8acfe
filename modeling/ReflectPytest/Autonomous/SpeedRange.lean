import ReflectPytest.Autonomous.Heading
import ReflectPytest.Services.Motor
import ReflectPytest.Services.Environment

set_option autoImplicit false

/-! # Speeds that fit into a motor command

The speed of a drive is computed as a `float` and converted to `int16_t`; only `MotorService` clamps
it. Nothing on the way bounds the limit of a region or the gain of a command, so the conversion can
be out of range, and then the clamp comes too late. `saturates_iff` says which limits and gains get
through. Arithmetic is exact here. -/

namespace ReflectPytest

open FloatOps

/-! ## Truncation -/

theorem trunc_of_neg {x : ℚ} (hx : x < 0) : trunc x = ⌈x⌉ := by
  rw [show trunc x = x.ceil from if_neg hx.not_ge, Rat.ceil_eq_neg_floor_neg]
  rfl

theorem trunc_mono {x y : ℚ} (h : x ≤ y) : trunc x ≤ trunc y := by
  rcases lt_or_ge x 0 with hx | hx
  · rw [trunc_of_neg hx]
    rcases lt_or_ge y 0 with hy | hy
    · rw [trunc_of_neg hy]
      exact Int.ceil_le_ceil h
    · rw [trunc_of_nonneg hy]
      have hceil : ⌈x⌉ ≤ 0 := Int.ceil_le.2 (by exact_mod_cast hx.le)
      exact hceil.trans (Int.floor_nonneg.2 hy)
  · rw [trunc_of_nonneg hx, trunc_of_nonneg (hx.trans h)]
    exact Int.floor_le_floor h

/-- The values that truncate into the range of `int16_t`. -/
theorem trunc_inRange_iff {x : ℚ} :
    (-2 ^ 15 ≤ trunc x ∧ trunc x < 2 ^ 15) ↔ -32769 < x ∧ x < 32768 := by
  rcases lt_or_ge x 0 with hx | hx
  · rw [trunc_of_neg hx]
    have hceil : ⌈x⌉ ≤ 0 := Int.ceil_le.2 (by exact_mod_cast hx.le)
    have hlow : -32769 < ⌈x⌉ ↔ -32769 < x := by
      rw [Int.lt_ceil]
      norm_num
    constructor
    · exact fun h => ⟨hlow.1 (by omega), by linarith⟩
    · intro h
      have := hlow.2 h.1
      omega
  · rw [trunc_of_nonneg hx]
    have hfloor : 0 ≤ ⌊x⌋ := Int.floor_nonneg.2 hx
    have hhigh : ⌊x⌋ < 32768 ↔ x < 32768 := by
      rw [Int.floor_lt]
      norm_num
    constructor
    · exact fun h => ⟨by linarith, hhigh.1 (by omega)⟩
    · intro h
      have := hhigh.2 h.2
      omega

theorem clampRpm_mono {a b : Int} (h : a ≤ b) : clampRpm a ≤ clampRpm b := by
  unfold clampRpm
  split_ifs <;> omega

namespace AutonomousService

/-! ## The speed of a drive -/

/-- The speed `MotorService` stores for the drive computed in the state. -/
def executedRpm (deref : EnvPtr → EnvironmentPayload ℚ) (s : AutonomousService ℚ) : Int :=
  (MotorService.accept (s.motorSequence deref)).speedRpm

/-- The drive saturates: its speed truncates into the range of `int16_t`, and what is executed is
    the clamped speed. -/
structure Saturates (deref : EnvPtr → EnvironmentPayload ℚ) (s : AutonomousService ℚ) : Prop where
  range : -2 ^ 15 ≤ trunc (s.targetSpeed deref) ∧ trunc (s.targetSpeed deref) < 2 ^ 15
  executed : s.executedRpm deref = clampRpm (trunc (s.targetSpeed deref))

/-- The scaled limit is representable. -/
def Fits (deref : EnvPtr → EnvironmentPayload ℚ) (s : AutonomousService ℚ) : Prop :=
  -32769 < s.scaledRpm deref ∧ s.scaledRpm deref < 32768

/-- The region in use gets a limit that is not lower, and keeps its incline; the gain is not
    negative. -/
structure Raises (s : AutonomousService ℚ) (deref deref' : EnvPtr → EnvironmentPayload ℚ) :
    Prop where
  gain : 0 ≤ s.cmd.pGain
  incline : ∀ p ∈ s.currentEnvPtr, (deref' p).inclinePercent = (deref p).inclinePercent
  limit : ∀ p ∈ s.currentEnvPtr, (deref p).maxSpeedRpm ≤ (deref' p).maxSpeedRpm

variable {deref deref' : EnvPtr → EnvironmentPayload ℚ} {s : AutonomousService ℚ}

theorem executedRpm_eq : s.executedRpm deref = clampRpm (toInt16 (s.targetSpeed deref)) :=
  MotorService.accept_speedRpm (s.motorSequence deref) (i := 0) (by
    simp [MotorService.accept, motorSequence, kMaxSubCmds])

theorem saturates_iff_fits : s.Saturates deref ↔ s.Fits deref := by
  unfold Fits
  rw [← targetSpeed_eq]
  constructor
  · exact fun h => trunc_inRange_iff.1 h.range
  · intro h
    have hrange := trunc_inRange_iff.2 h
    exact ⟨hrange, by rw [executedRpm_eq, toInt16_of_inRange hrange]⟩

theorem limitRpm_mono (h : s.Raises deref deref') : s.limitRpm deref ≤ s.limitRpm deref' := by
  unfold limitRpm
  rcases Option.eq_none_or_eq_some s.currentEnvPtr with hnone | ⟨p, hp⟩
  · rw [hnone]
    exact le_refl _
  · rw [hp]
    exact h.limit p hp

theorem steep_congr (h : s.Raises deref deref') : s.Steep deref' ↔ s.Steep deref := by
  unfold Steep
  refine and_congr_right fun _ => exists_congr fun p => and_congr_right fun hp => ?_
  rw [h.incline p hp]

theorem modeRpm_mono (h : s.Raises deref deref') : s.modeRpm deref ≤ s.modeRpm deref' := by
  unfold modeRpm
  cases hmode : modeFactor s.cmd with
  | none => exact limitRpm_mono h
  | some factor =>
      have hfactor := modeFactor_nonneg (decide_eq_true h.gain) factor hmode
      exact mul_le_mul_of_nonneg_right (limitRpm_mono h) (of_decide_eq_true hfactor)

/-- A higher limit never scales to a lower speed. -/
theorem scaledRpm_mono (h : s.Raises deref deref') : s.scaledRpm deref ≤ s.scaledRpm deref' := by
  unfold scaledRpm
  simp only [steep_congr h]
  split
  · exact div_le_div_of_nonneg_right (modeRpm_mono h) zero_le_two
  · exact modeRpm_mono h

/-- **Speeds saturate**: two drives in states that differ in the limit of the region in use both
    saturate, and the higher limit is not executed at a lower speed, if and only if both scaled
    limits are representable. -/
theorem saturates_iff (s : AutonomousService ℚ) (deref deref' : EnvPtr → EnvironmentPayload ℚ) :
    (s.Saturates deref ∧ s.Saturates deref' ∧
        (s.Raises deref deref' → s.executedRpm deref ≤ s.executedRpm deref')) ↔
      s.Fits deref ∧ s.Fits deref' := by
  constructor
  · rintro ⟨h, h', -⟩
    exact ⟨saturates_iff_fits.1 h, saturates_iff_fits.1 h'⟩
  · rintro ⟨h, h'⟩
    have hs := saturates_iff_fits.2 h
    have hs' := saturates_iff_fits.2 h'
    refine ⟨hs, hs', fun hraises => ?_⟩
    rw [hs.executed, hs'.executed, targetSpeed_eq, targetSpeed_eq]
    exact clampRpm_mono (trunc_mono (scaledRpm_mono hraises))

/-! ## A limit that wraps around -/

/-- A region with a limit of 30000 rpm. -/
def fastRegion : EnvironmentPayload ℚ :=
  { (default : EnvironmentPayload ℚ) with regionId := 1, maxSpeedRpm := 30000 }

/-- The cache once the region has been received. -/
def fastCache : EnvPtr → EnvironmentPayload ℚ :=
  ((EnvironmentService.init : EnvironmentService ℚ).onEnvironmentData fastRegion).1.deref

/-- One node in performance mode. -/
def fastRoute : AutoDriveCommandPayload ℚ :=
  { (default : AutoDriveCommandPayload ℚ) with
    numNodes := 1
    mode := .performance
    route := fun _ => ⟨⟨10, 0⟩, 5000⟩ }

/-- 33000 rpm do not fit, and the vehicle is driven backward at full speed. -/
theorem fastRoute_overflows :
    ¬ ∀ (inputs : List ((EnvPtr → EnvironmentPayload ℚ) × Input ℚ)) deref s,
      .drive deref s ∈ (init : AutonomousService ℚ).commandsOf inputs → s.Saturates deref := by
  intro h
  have hdrive := h [(fastCache, .autoDriveCommand fastRoute), (fastCache, .internalEnvData ⟨0⟩)]
    fastCache ((init.acceptCommand fastRoute).onInternalEnvData fastCache ⟨0⟩).1
    (List.mem_cons_of_mem _ List.mem_cons_self)
  exact absurd (saturates_iff_fits.1 hdrive) (by unfold Fits; decide +kernel)

end AutonomousService

end ReflectPytest
