import ReflectPytest.FloatOps
import Mathlib.Tactic.Linarith

set_option autoImplicit false

/-! # What `float` and exact arithmetic have in common

Results about positions and speeds that hold whatever is rounded use the laws below. IEEE single
precision satisfies them as they stand, with NaN, infinities and signed zeros among the values, and
so do the rationals. -/

namespace ReflectPytest

namespace FloatOps

variable {F : Type} [FloatOps F]

/-- The value is not a NaN. -/
def IsNumber (a : F) : Prop := le a a = true

/-- Both positions are beyond the target, on one side of it. -/
def SameSide (target a b : F) : Prop :=
  (lt target a = true ∧ lt target b = true) ∨ (lt a target = true ∧ lt b target = true)

instance (a : F) : Decidable (IsNumber a) := inferInstanceAs (Decidable (_ = _))

instance (target a b : F) : Decidable (SameSide target a b) := inferInstanceAs (Decidable (_ ∨ _))

end FloatOps

open FloatOps

/-- Laws of the operations on all values. A difference grows with the distance, also after rounding,
    and the product of two distances of at least 0.1 does not underflow. -/
class FloatLaws (F : Type) [FloatOps F] : Prop where
  le_trans {a b c : F} : le a b = true → le b c = true → le a c = true
  le_total {a b : F} : IsNumber a → IsNumber b → le a b = true ∨ le b a = true
  isNumber_of_le {a b : F} : le a b = true → IsNumber a ∧ IsNumber b
  lt_iff {a b : F} : lt a b = true ↔ le a b = true ∧ ¬ le b a = true
  isNumber_of_sub {a b : F} : IsNumber (a - b) → IsNumber a ∧ IsNumber b
  isNumber_of_mul {a b : F} : IsNumber (a * b) → IsNumber a ∧ IsNumber b
  isNumber_of_div {a b : F} : IsNumber (a / b) → IsNumber a ∧ IsNumber b
  abs_sub_mono {a b c d : F} : le a b = true → le b c = true →
    lt (FloatOps.abs (a - c)) d = true → lt (FloatOps.abs (a - b)) d = true
  mul_sub_pos {a b c : F} : le a b = true → le a c = true →
    ¬ lt (FloatOps.abs (a - b)) (lit (1 / 10)) = true →
    ¬ lt (FloatOps.abs (a - c)) (lit (1 / 10)) = true → ¬ le ((a - b) * (a - c)) 0 = true
  lit_nonneg {q : ℚ} : 0 ≤ q → le 0 (lit q : F) = true
  mul_nonneg {a b : F} : le 0 a = true → le 0 b = true → IsNumber (a * b) → le 0 (a * b) = true
  half_nonneg {a : F} : le 0 a = true → le 0 (a / lit 2) = true
  trunc_nonneg {a : F} : le 0 a = true → lt a (lit 32768) = true → 0 ≤ trunc a ∧ trunc a < 32768
  trunc_nonpos_iff {a : F} : le 0 a = true → lt a (lit 32768) = true →
    (trunc a ≤ 0 ↔ lt a (lit 1) = true)

namespace FloatLaws

variable {F : Type} [FloatOps F] [FloatLaws F] {a b c : F}

theorem le_of_lt (h : lt a b = true) : le a b = true := (lt_iff.1 h).1

theorem not_lt_of_le (h : le a b = true) : ¬ lt b a = true := fun hlt => (lt_iff.1 hlt).2 h

theorem le_of_not_lt (ha : IsNumber a) (hb : IsNumber b) (h : ¬ lt a b = true) : le b a = true := by
  by_contra hle
  exact h (lt_iff.2 ⟨(le_total ha hb).resolve_right hle, hle⟩)

theorem lt_of_le_of_lt (h : le a b = true) (h' : lt b c = true) : lt a c = true := by
  obtain ⟨hle, hnot⟩ := lt_iff.1 h'
  exact lt_iff.2 ⟨le_trans h hle, fun hca => hnot (le_trans hca h)⟩

theorem lt_of_lt_of_le (h : lt a b = true) (h' : le b c = true) : lt a c = true := by
  obtain ⟨hle, hnot⟩ := lt_iff.1 h
  exact lt_iff.2 ⟨le_trans hle h', fun hca => hnot (le_trans h' hca)⟩

end FloatLaws

namespace FloatOps.SameSide

variable {F : Type} [FloatOps F] {t a b c : F}

/-- Positions on the side of a third are on one side. -/
theorem trans [FloatLaws F] (h : SameSide t a b) (h' : SameSide t a c) : SameSide t b c := by
  rcases h with ⟨ha, hb⟩ | ⟨ha, hb⟩ <;> rcases h' with ⟨ha', hc⟩ | ⟨ha', hc⟩
  · exact .inl ⟨hb, hc⟩
  · exact absurd ha' (FloatLaws.not_lt_of_le (FloatLaws.le_of_lt ha))
  · exact absurd ha' (FloatLaws.not_lt_of_le (FloatLaws.le_of_lt ha))
  · exact .inr ⟨hb, hc⟩

end FloatOps.SameSide

/-! ## Exact arithmetic -/

theorem trunc_of_nonneg {x : ℚ} (hx : 0 ≤ x) : trunc x = ⌊x⌋ := if_pos hx

/-- The sign of a product tells whether two positions are on one side. -/
theorem mul_nonpos_iff_not_sameSide {t a b : ℚ} :
    (t - a) * (t - b) ≤ 0 ↔ ¬ SameSide t a b := by
  rw [← not_lt, not_iff_not, mul_pos_iff]
  simp [SameSide, or_comm]

theorem abs_sub_of_le {a b : ℚ} (h : a ≤ b) : |a - b| = b - a := by
  rw [abs_sub_comm]
  exact abs_of_nonneg (sub_nonneg.2 h)

instance : FloatLaws ℚ where
  le_trans h h' := decide_eq_true ((of_decide_eq_true h).trans (of_decide_eq_true h'))
  le_total _ _ := Rat.le_total.imp decide_eq_true decide_eq_true
  isNumber_of_le _ := ⟨decide_eq_true le_rfl, decide_eq_true le_rfl⟩
  lt_iff {a b} := by simpa using fun h : a < b => h.le
  isNumber_of_sub _ := ⟨decide_eq_true le_rfl, decide_eq_true le_rfl⟩
  isNumber_of_mul _ := ⟨decide_eq_true le_rfl, decide_eq_true le_rfl⟩
  isNumber_of_div _ := ⟨decide_eq_true le_rfl, decide_eq_true le_rfl⟩
  abs_sub_mono {a b c d} hab hbc := by
    simp only [le_rat, lt_rat, decide_eq_true_eq, abs_rat] at *
    rw [abs_sub_of_le hab, abs_sub_of_le (hab.trans hbc)]
    intro h
    linarith
  mul_sub_pos {a b c} hab hac := by
    simp only [le_rat, lt_rat, decide_eq_true_eq, abs_rat, lit_rat, not_lt, not_le] at *
    rw [abs_sub_of_le hab, abs_sub_of_le hac]
    intro hb hc
    exact mul_pos_of_neg_of_neg (by linarith) (by linarith)
  lit_nonneg h := decide_eq_true h
  mul_nonneg h h' _ := decide_eq_true (Rat.mul_nonneg (of_decide_eq_true h) (of_decide_eq_true h'))
  half_nonneg h := decide_eq_true (div_nonneg (of_decide_eq_true h) zero_le_two)
  trunc_nonneg {a} h hlt := by
    simp only [le_rat, lt_rat, decide_eq_true_eq, lit_rat] at h hlt
    rw [trunc_of_nonneg h]
    exact ⟨Int.floor_nonneg.2 h, Int.floor_lt.2 (by exact_mod_cast hlt)⟩
  trunc_nonpos_iff {a} h _ := by
    simp only [le_rat, lt_rat, decide_eq_true_eq, lit_rat] at h ⊢
    rw [trunc_of_nonneg h, ← Int.lt_add_one_iff, zero_add, Int.floor_lt, Int.cast_one]

end ReflectPytest
