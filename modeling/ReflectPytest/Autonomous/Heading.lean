import ReflectPytest.Autonomous.MotorCommands
import ReflectPytest.FloatLaws
import Mathlib.Tactic.Positivity

set_option autoImplicit false

/-! # Which way the controller drives

The speed of a drive is the region's limit scaled by the mode; neither the target nor the position
enters it. With limits and gains that are not negative the vehicle is therefore sent forward, on
whichever side of it the node lies. `run_toward_iff` is the exact condition under which that is
toward the node. -/

namespace ReflectPytest

open FloatOps

/-- In range the conversion is the truncation. -/
theorem toInt16_of_inRange {F : Type} [FloatOps F] {x : F}
    (h : -2 ^ 15 ≤ trunc x ∧ trunc x < 2 ^ 15) : toInt16 x = trunc x := by
  rw [toInt16, if_pos (by omega), Int.bmod_def]
  split <;> omega

namespace AutonomousService

section

variable {F : Type} [FloatOps F]

/-- The target of the current node. -/
def targetM (s : AutonomousService F) : F := (s.node s.currentNodeIdx).targetPos.x

/-- The speed of the drive computed in the state. -/
def commandedRpm (deref : EnvPtr → EnvironmentPayload F) (s : AutonomousService F) : Int :=
  (((s.motorSequence deref).steps.get? 0).getD default).speedRpm

/-- The drive does not point away from the current node, seen from the last known position. -/
structure Toward (deref : EnvPtr → EnvironmentPayload F) (s : AutonomousService F) : Prop where
  ahead : lt s.lastPosM s.targetM = true → 0 ≤ s.commandedRpm deref
  behind : lt s.targetM s.lastPosM = true → s.commandedRpm deref ≤ 0

/-- The limit in use, 1000 rpm as long as no region is known. -/
def limitRpm (deref : EnvPtr → EnvironmentPayload F) (s : AutonomousService F) : F :=
  s.currentEnvPtr.elim (lit 1000) fun p => (deref p).maxSpeedRpm

/-- The factor of a command's drive mode, if it has one. -/
def modeFactor (cmd : AutoDriveCommandPayload F) : Option F :=
  match cmd.mode with
  | .eco => some (lit (75 / 100))
  | .performance => some (lit (110 / 100))
  | .manualTuning => some cmd.pGain
  | .unnamed _ => none

/-- The command asks for tuning, and the region is steep. -/
def Steep (deref : EnvPtr → EnvironmentPayload F) (s : AutonomousService F) : Prop :=
  s.cmd.useEnvironmentTuning = true ∧
    ∃ p ∈ s.currentEnvPtr, lt (lit 5) (FloatOps.abs (deref p).inclinePercent) = true

instance (deref : EnvPtr → EnvironmentPayload F) (s : AutonomousService F) :
    Decidable (s.Steep deref) :=
  inferInstanceAs (Decidable (_ ∧ _))

/-- The limit scaled by the mode. -/
def modeRpm (deref : EnvPtr → EnvironmentPayload F) (s : AutonomousService F) : F :=
  (modeFactor s.cmd).elim (s.limitRpm deref) fun factor => s.limitRpm deref * factor

/-- The limit scaled by the mode, and half of that where it is steep. -/
def scaledRpm (deref : EnvPtr → EnvironmentPayload F) (s : AutonomousService F) : F :=
  if s.Steep deref then s.modeRpm deref / lit 2 else s.modeRpm deref

/-- The node is not within the 0.1 m window, neither the gain nor the limit in use is negative, and
    the scaled limit fits into `int16_t`. -/
structure Regular (deref : EnvPtr → EnvironmentPayload F) (s : AutonomousService F) : Prop where
  far : ¬ lt (FloatOps.abs (s.targetM - s.lastPosM)) (lit (1 / 10)) = true
  gain : le 0 s.cmd.pGain = true
  limit : ∀ p ∈ s.currentEnvPtr, le 0 (deref p).maxSpeedRpm = true
  fits : lt (s.scaledRpm deref) (lit 32768) = true

/-- A node behind finds a limit below 1 rpm. -/
def LeadsToNode (deref : EnvPtr → EnvironmentPayload F) (s : AutonomousService F) : Prop :=
  lt s.targetM s.lastPosM = true → lt (s.scaledRpm deref) (lit 1) = true

variable {deref : EnvPtr → EnvironmentPayload F} {s : AutonomousService F}

theorem targetSpeed_eq : s.targetSpeed deref = s.scaledRpm deref := by
  unfold targetSpeed scaledRpm modeRpm limitRpm modeFactor
  by_cases hsteep : s.Steep deref
  · obtain ⟨htuning, p, hp, hincline⟩ := id hsteep
    rw [if_pos hsteep, htuning, Option.mem_def.1 hp]
    cases s.cmd.mode <;> simp [hincline]
  · rw [if_neg hsteep]
    cases hp : s.currentEnvPtr with
    | none => cases s.cmd.mode <;> simp
    | some p =>
        cases htuning : s.cmd.useEnvironmentTuning with
        | false => cases s.cmd.mode <;> simp
        | true =>
            have hflat : lt (lit 5) (FloatOps.abs (deref p).inclinePercent) = false :=
              Bool.eq_false_iff.2 fun h => hsteep ⟨htuning, p, hp, h⟩
            cases s.cmd.mode <;> simp [hflat]

theorem commandedRpm_eq : s.commandedRpm deref = toInt16 (s.scaledRpm deref) := by
  have hfirst : 0 < kMaxSubCmds := by decide
  rw [← targetSpeed_eq, commandedRpm, motorSequence, StdArray.get?_set_self _ hfirst]
  rfl

variable [FloatLaws F]

theorem limitRpm_nonneg (h : s.Regular deref) : le 0 (s.limitRpm deref) = true := by
  unfold limitRpm
  cases hp : s.currentEnvPtr with
  | none => exact FloatLaws.lit_nonneg (by norm_num)
  | some p => exact h.limit p hp

theorem modeFactor_nonneg {cmd : AutoDriveCommandPayload F} (h : le 0 cmd.pGain = true) :
    ∀ factor ∈ modeFactor cmd, le 0 factor = true := by
  intro factor hfactor
  unfold modeFactor at hfactor
  split at hfactor
  · exact Option.some.inj hfactor ▸ FloatLaws.lit_nonneg (by norm_num)
  · exact Option.some.inj hfactor ▸ FloatLaws.lit_nonneg (by norm_num)
  · exact Option.some.inj hfactor ▸ h
  · exact nomatch hfactor

theorem modeRpm_nonneg (h : s.Regular deref) (hnumber : IsNumber (s.modeRpm deref)) :
    le 0 (s.modeRpm deref) = true := by
  unfold modeRpm at hnumber ⊢
  cases hmode : modeFactor s.cmd with
  | none => exact limitRpm_nonneg h
  | some factor =>
      rw [hmode] at hnumber
      exact FloatLaws.mul_nonneg (limitRpm_nonneg h) (modeFactor_nonneg h.gain factor hmode)
        hnumber

/-- Scaling and halving keep the sign of the limit. -/
theorem scaledRpm_nonneg (h : s.Regular deref) : le 0 (s.scaledRpm deref) = true := by
  have hnumber := (FloatLaws.isNumber_of_le (FloatLaws.le_of_lt h.fits)).1
  unfold scaledRpm at hnumber ⊢
  by_cases hsteep : s.Steep deref
  · rw [if_pos hsteep] at hnumber ⊢
    exact FloatLaws.half_nonneg (modeRpm_nonneg h (FloatLaws.isNumber_of_div hnumber).1)
  · rw [if_neg hsteep] at hnumber ⊢
    exact modeRpm_nonneg h hnumber

/-- **Which drives point toward their node.** -/
theorem toward_iff (h : s.Regular deref) : s.Toward deref ↔ s.LeadsToNode deref := by
  have hrange := FloatLaws.trunc_nonneg (scaledRpm_nonneg h) h.fits
  have hspeed : s.commandedRpm deref = trunc (s.scaledRpm deref) := by
    rw [commandedRpm_eq, toInt16_of_inRange (by omega)]
  have hnonpos := FloatLaws.trunc_nonpos_iff (scaledRpm_nonneg h) h.fits
  rw [← hspeed] at hrange hnonpos
  constructor
  · exact fun htoward hbehind => hnonpos.1 (htoward.behind hbehind)
  · exact fun hleads => ⟨fun _ => hrange.1, fun hbehind => hnonpos.2 (hleads hbehind)⟩

/-- **The controller drives toward the node**: a run publishes its drives and stops, and every drive
    points toward its node if and only if every one leads there. -/
theorem run_toward_iff (inputs : List ((EnvPtr → EnvironmentPayload F) × Input F)) :
    sequences ((init : AutonomousService F).run inputs).2 =
        ((init : AutonomousService F).commandsOf inputs).map Command.sequence ∧
      ((∀ deref s, .drive deref s ∈ (init : AutonomousService F).commandsOf inputs →
          s.Regular deref → s.Toward deref) ↔
        ∀ deref s, .drive deref s ∈ (init : AutonomousService F).commandsOf inputs →
          s.Regular deref → s.LeadsToNode deref) := by
  refine ⟨sequences_run init inputs, ?_, ?_⟩
  · exact fun h deref s hs hregular => (toward_iff hregular).1 (h deref s hs hregular)
  · exact fun h deref s hs hregular => (toward_iff hregular).2 (h deref s hs hregular)

end

/-! ## A node on either side of the vehicle -/

/-- In exact arithmetic: speed and way to the node do not have opposite signs. -/
theorem toward_iff_mul {deref : EnvPtr → EnvironmentPayload ℚ} {s : AutonomousService ℚ} :
    s.Toward deref ↔ 0 ≤ (s.commandedRpm deref : ℚ) * (s.targetM - s.lastPosM) := by
  constructor
  · rintro ⟨hahead, hbehind⟩
    rcases lt_trichotomy s.lastPosM s.targetM with h | h | h
    · exact mul_nonneg (by exact_mod_cast hahead (decide_eq_true h)) (sub_nonneg.2 h.le)
    · rw [h, sub_self, mul_zero]
    · exact mul_nonneg_of_nonpos_of_nonpos (by exact_mod_cast hbehind (decide_eq_true h))
        (sub_nonpos.2 h.le)
  · intro h
    refine ⟨fun hahead => ?_, fun hbehind => ?_⟩
    · have hway := sub_pos.2 (of_decide_eq_true hahead)
      exact_mod_cast (mul_nonneg_iff_of_pos_right hway).1 h
    · have hway := sub_neg.2 (of_decide_eq_true hbehind)
      rw [← neg_mul_neg, mul_nonneg_iff_of_pos_right (neg_pos.2 hway), neg_nonneg] at h
      exact_mod_cast h

/-- A route of one node, from 0 m. -/
def oneNode (targetM : ℚ) : AutoDriveCommandPayload ℚ :=
  { (default : AutoDriveCommandPayload ℚ) with
    numNodes := 1, route := fun _ => ⟨⟨targetM, 0⟩, 5000⟩ }

/-- To a node at -1 m the vehicle is sent forward, at 750 rpm. -/
theorem nodeBehind_drivesAway :
    ¬ ∀ (inputs : List ((EnvPtr → EnvironmentPayload ℚ) × Input ℚ)) deref s,
      .drive deref s ∈ (init : AutonomousService ℚ).commandsOf inputs →
        s.Regular deref → s.Toward deref := by
  intro h
  have htoward := h [(fun _ => default, .autoDriveCommand (oneNode (-1)))] (fun _ => default)
    (init.acceptCommand (oneNode (-1))) List.mem_cons_self
    { far := by decide +kernel
      gain := by decide +kernel
      limit := fun p hp => nomatch hp
      fits := by decide +kernel }
  rw [toward_iff_mul] at htoward
  revert htoward
  decide +kernel

/-- To a node at 1 m it is sent toward it. -/
theorem nodeAhead_toward :
    ((init : AutonomousService ℚ).acceptCommand (oneNode 1)).Toward fun _ => default := by
  refine (run_toward_iff [(fun _ => default, .autoDriveCommand (oneNode 1))]).2.2 ?_ _ _
    List.mem_cons_self
    { far := by decide +kernel
      gain := by decide +kernel
      limit := fun p hp => nomatch hp
      fits := by decide +kernel }
  intro deref s hs _ hbehind
  obtain ⟨-, rfl⟩ := Command.drive.inj (List.mem_singleton.1 hs)
  exact absurd hbehind (by decide +kernel)

end AutonomousService

end ReflectPytest
