import ReflectPytest.Sequential.Schedule
import Mathlib.Algebra.BigOperators.Ring.Finset

set_option autoImplicit false

/-! # When the steps of a sequence end

A step ends with the tick that uses up its time, and what is left of that tick is not taken off the
next step. So each step is rounded up to whole ticks on its own (`ticksOf`), a step without duration
to one tick, and the roundings add up. `run_onTime_iff` says how far. -/

namespace ReflectPytest

open SyncBus

/-! ## The ticks of a sequence -/

/-- The duration of a step. -/
def MotorSequencePayload.durationUs (cmd : MotorSequencePayload) (i : Nat) : Nat :=
  ((cmd.steps.get? i).getD default).durationUs

/-- The ticks until step `k` begins. -/
def ticksUntil (dt : Nat) (cmd : MotorSequencePayload) (k : Nat) : Nat :=
  ∑ i ∈ Finset.range k, ticksOf dt (cmd.durationUs i)

/-- The time by which the steps before step `k` are rounded up in all. -/
def lag (dt : Nat) (cmd : MotorSequencePayload) (k : Nat) : Nat :=
  ∑ i ∈ Finset.range k, (ticksOf dt (cmd.durationUs i) * dt - cmd.durationUs i)

variable {dt : Nat} {cmd : MotorSequencePayload} {i j k : Nat}

theorem ticksUntil_succ (dt : Nat) (cmd : MotorSequencePayload) (k : Nat) :
    ticksUntil dt cmd (k + 1) = ticksUntil dt cmd k + ticksOf dt (cmd.durationUs k) :=
  Finset.sum_range_succ _ k

theorem ticksUntil_strictMono (dt : Nat) (cmd : MotorSequencePayload) :
    StrictMono (ticksUntil dt cmd) := by
  refine strictMono_nat_of_lt_succ fun k => ?_
  have hpos : 1 ≤ ticksOf dt (cmd.durationUs k) := Nat.le_max_left _ _
  rw [ticksUntil_succ]
  omega

/-- A step is never cut short. -/
theorem le_ticksOf_mul (hdt : 0 < dt) (d : Nat) : d ≤ ticksOf dt d * dt := by
  rw [mul_comm, ← ceilDiv_le_iff_le_mul hdt]
  exact Nat.le_max_right _ _

/-- A step begins later than scheduled by all the roundings before it. -/
theorem ticksUntil_mul (hdt : 0 < dt) (cmd : MotorSequencePayload) (k : Nat) :
    ticksUntil dt cmd k * dt = ∑ i ∈ Finset.range k, cmd.durationUs i + lag dt cmd k := by
  rw [ticksUntil, lag, Finset.sum_mul, ← Finset.sum_add_distrib]
  refine Finset.sum_congr rfl fun i _ => ?_
  have hle := le_ticksOf_mul hdt (cmd.durationUs i)
  omega

/-! ## Which step a tick belongs to -/

theorem scheduleFrom_eq (dt : Nat) (hi : i < min cmd.numSteps kMaxSubCmds) :
    scheduleFrom dt cmd i =
      List.replicate (ticksOf dt (cmd.durationUs i)) i ++ scheduleFrom dt cmd (i + 1) :=
  scheduleFrom_of_lt dt hi

theorem scheduleFrom_getElem? (h : (scheduleFrom dt cmd i)[j]? = some k) :
    k < min cmd.numSteps kMaxSubCmds ∧ ticksUntil dt cmd k ≤ ticksUntil dt cmd i + j ∧
      ticksUntil dt cmd i + j < ticksUntil dt cmd (k + 1) := by
  induction hm : min cmd.numSteps kMaxSubCmds - i generalizing i j with
  | zero =>
      rw [scheduleFrom_of_le dt (by omega)] at h
      exact absurd h (by simp)
  | succ m ih =>
      have hi : i < min cmd.numSteps kMaxSubCmds := by omega
      have hsucc := ticksUntil_succ dt cmd i
      rw [scheduleFrom_eq dt hi] at h
      by_cases hj : j < ticksOf dt (cmd.durationUs i)
      · rw [List.getElem?_append_left (by simpa using hj), List.getElem?_replicate_of_lt hj] at h
        obtain rfl := Option.some.inj h
        exact ⟨hi, by omega, by omega⟩
      · have hlen : (List.replicate (ticksOf dt (cmd.durationUs i)) i).length ≤ j := by
          simpa using hj
        rw [List.getElem?_append_right hlen, List.length_replicate] at h
        have := ih h (by omega)
        omega

theorem length_scheduleFrom (dt : Nat) (cmd : MotorSequencePayload) (i : Nat)
    (hi : i ≤ min cmd.numSteps kMaxSubCmds) : ticksUntil dt cmd i + (scheduleFrom dt cmd i).length =
      ticksUntil dt cmd (min cmd.numSteps kMaxSubCmds) := by
  induction hm : min cmd.numSteps kMaxSubCmds - i generalizing i with
  | zero =>
      rw [scheduleFrom_of_le dt (by omega), show i = min cmd.numSteps kMaxSubCmds by omega]
      rfl
  | succ m ih =>
      rw [scheduleFrom_eq dt (by omega), List.length_append, List.length_replicate, ← add_assoc,
        ← ticksUntil_succ]
      exact ih (i + 1) (by omega) (by omega)

/-- **The step of a tick**: step `k` has the ticks between the end of the step before it and its
    own. -/
theorem schedule_getElem?_iff : (schedule dt cmd)[j]? = some k ↔
    k < min cmd.numSteps kMaxSubCmds ∧ ticksUntil dt cmd k ≤ j ∧ j < ticksUntil dt cmd (k + 1) := by
  have hzero : ticksUntil dt cmd 0 = 0 := rfl
  constructor
  · intro h
    have := scheduleFrom_getElem? (i := 0) h
    omega
  · rintro ⟨hk, hlo, hhi⟩
    have hlength := length_scheduleFrom dt cmd 0 (Nat.zero_le _)
    have hle := (ticksUntil_strictMono dt cmd).monotone (show k + 1 ≤ _ from hk)
    have hj : j < (schedule dt cmd).length := by
      unfold schedule
      omega
    obtain ⟨hk', hlo', hhi'⟩ := scheduleFrom_getElem? (i := 0) (List.getElem?_eq_getElem hj)
    rw [hzero, zero_add] at hlo' hhi'
    -- Only one step has the tick.
    have hmono := ticksUntil_strictMono dt cmd
    have hnext : k < (schedule dt cmd)[j] + 1 := hmono.lt_iff_lt.1 (hlo.trans_lt hhi')
    have hprev : (schedule dt cmd)[j] < k + 1 := hmono.lt_iff_lt.1 (hlo'.trans_lt hhi)
    rw [List.getElem?_eq_getElem hj, Option.some.injEq]
    omega

namespace App

variable {F : Type} [FloatOps F]

/-! ## The tick that ends a step -/

/-- The motor is running step `k`. -/
def AtStep (w : World F) (k : Nat) : Prop := w.motor.active = true ∧ w.motor.currentStepIdx = k

/-- Step `k` ends from one world to the next. -/
def EndsStep (w w' : World F) (k : Nat) : Prop := AtStep w k ∧ ¬ AtStep w' k

instance (w : World F) (k : Nat) : Decidable (AtStep w k) := inferInstanceAs (Decidable (_ ∧ _))

instance (w w' : World F) (k : Nat) : Decidable (EndsStep w w' k) :=
  inferInstanceAs (Decidable (_ ∧ _))

/-- The time is at least the durations of the steps up to `k`, and less than a tick more. -/
def OnTime (dt : Nat) (cmd : MotorSequencePayload) (k time : Nat) : Prop :=
  ∑ i ∈ Finset.range (k + 1), cmd.durationUs i ≤ time ∧
    time < ∑ i ∈ Finset.range (k + 1), cmd.durationUs i + dt

omit [FloatOps F] in
theorem Follows.atStep_iff {w : World F} (h : Follows dt cmd ((schedule dt cmd).drop j) w) :
    AtStep w k ↔ (schedule dt cmd)[j]? = some k := by
  rw [← List.head?_drop]
  cases hrest : (schedule dt cmd).drop j with
  | nil =>
      rw [hrest] at h
      have hoff := MotorService.inactive_of_remaining h.remaining
      simp [AtStep, hoff]
  | cons i rest =>
      rw [hrest] at h
      obtain ⟨hactive, hidx⟩ := MotorService.active_of_remaining h.remaining
      simp [AtStep, hactive, hidx]

omit [FloatOps F] in
theorem ticks_concat_tick (es : List (Event F)) (now : Nat) :
    ticks (es ++ [.tick now]) = ticks es + 1 := by
  simp [ticks]

theorem run_append (pf : Platform F) (w : World F) (es es' : List (Event F)) :
    run pf w (es ++ es') = run pf (run pf w es) es' := List.foldl_append

omit [FloatOps F] in
/-- A run long enough has a prefix that ends with its `m`-th tick. -/
theorem exists_tick {m : Nat} (hm : 0 < m) {es : List (Event F)} (h : m ≤ ticks es) :
    ∃ pre now, pre ++ [.tick now] <+: es ∧ ticks pre + 1 = m := by
  induction es using List.reverseRecOn with
  | nil => exact absurd h (by simp [ticks]; omega)
  | append_singleton es e ih =>
      by_cases hfit : m ≤ ticks es
      · obtain ⟨pre, now, hpre, hticks⟩ := ih hfit
        exact ⟨pre, now, hpre.trans (List.prefix_append _ _), hticks⟩
      · cases e with
        | datagram now msg => exact absurd h (by simpa [ticks] using hfit)
        | tick now =>
            rw [ticks_concat_tick] at h
            exact ⟨es, now, List.prefix_refl _, by omega⟩

section Timing

variable {pf : Platform F} (hdt : 0 < pf.kTickUs) {w : World F} {es : List (Event F)}
  (hstart : Follows pf.kTickUs cmd (schedule pf.kTickUs cmd) w)
  (hquiet : ¬ SequenceSince w.history (run pf w es))

include hdt hstart hquiet

/-- Every prefix follows the schedule as far as it has ticks. -/
theorem follows_prefix {pre : List (Event F)} (hpre : pre <+: es) :
    Follows pf.kTickUs cmd ((schedule pf.kTickUs cmd).drop (ticks pre)) (run pf w pre) := by
  obtain ⟨rest, rfl⟩ := hpre
  rw [run_append] at hquiet
  exact hstart.run hdt fun h => hquiet (h.later (run_history pf _ rest))

/-- **Step lemma.** A tick ends step `k` if and only if it is the last one of the step. -/
theorem endsStep_iff {pre : List (Event F)} {now : Nat} (hpre : pre ++ [.tick now] <+: es) :
    EndsStep (run pf w pre) (run pf w (pre ++ [.tick now])) k ↔
      k < min cmd.numSteps kMaxSubCmds ∧
        ticks (pre ++ [.tick now]) = ticksUntil pf.kTickUs cmd (k + 1) := by
  have hbefore := follows_prefix hdt hstart hquiet ((List.prefix_append pre _).trans hpre)
  have hafter := follows_prefix hdt hstart hquiet hpre
  rw [ticks_concat_tick] at hafter ⊢
  rw [EndsStep, hbefore.atStep_iff, hafter.atStep_iff, schedule_getElem?_iff,
    schedule_getElem?_iff]
  have hlt := ticksUntil_strictMono pf.kTickUs cmd (Nat.lt_succ_self k)
  simp only [Nat.succ_eq_add_one] at hlt
  constructor
  · rintro ⟨⟨hk, hlo, hhi⟩, hnot⟩
    refine ⟨hk, ?_⟩
    by_contra hne
    exact hnot ⟨hk, by omega, by omega⟩
  · rintro ⟨hk, hend⟩
    exact ⟨⟨hk, by omega, by omega⟩, fun hin => by omega⟩

end Timing

/-- **How late steps end.** From the publish of a sequence on, as long as no other sequence is
    published, every step ends on time if and only if the roundings of the steps up to it are less
    than one tick in all. -/
theorem run_onTime_iff (pf : Platform F) (hdt : 0 < pf.kTickUs) (cmd : MotorSequencePayload)
    (hn : 1 ≤ min cmd.numSteps kMaxSubCmds) (hd : 0 < cmd.durationUs 0) (w : World F)
    (es : List (Event F)) :
    let w₁ := (bus pf).publish (.motorSequence cmd) w
    ¬ SequenceSince w₁.history (run pf w₁ es) →
    ((∀ pre now k, pre ++ [.tick now] <+: es →
        EndsStep (run pf w₁ pre) (run pf w₁ (pre ++ [.tick now])) k →
        OnTime pf.kTickUs cmd k (ticks (pre ++ [.tick now]) * pf.kTickUs)) ↔
      ∀ k < min cmd.numSteps kMaxSubCmds, ticksUntil pf.kTickUs cmd (k + 1) ≤ ticks es →
        lag pf.kTickUs cmd (k + 1) < pf.kTickUs) := by
  intro w₁ hquiet
  have hfirst : 0 < (cmd.steps 0).durationUs := by
    have hbound : 0 < kMaxSubCmds := by decide
    simpa [MotorSequencePayload.durationUs, StdArray.get?_of_lt _ hbound] using hd
  have hstart : Follows pf.kTickUs cmd (schedule pf.kTickUs cmd) w₁ :=
    (follows_start pf w (hn.trans (Nat.min_le_left _ _)) hfirst).1
  have honTime : ∀ k, OnTime pf.kTickUs cmd k (ticksUntil pf.kTickUs cmd (k + 1) * pf.kTickUs) ↔
      lag pf.kTickUs cmd (k + 1) < pf.kTickUs := by
    intro k
    rw [OnTime, ticksUntil_mul hdt]
    omega
  constructor
  · intro hall k hk hticks
    have hpos : 0 < ticksUntil pf.kTickUs cmd (k + 1) :=
      (Nat.zero_le _).trans_lt (ticksUntil_strictMono _ cmd (Nat.lt_succ_self k))
    obtain ⟨pre, now, hpre, hlast⟩ := exists_tick hpos hticks
    rw [← ticks_concat_tick pre now] at hlast
    have hends := (endsStep_iff hdt hstart hquiet hpre).2 ⟨hk, hlast⟩
    rw [← honTime, ← hlast]
    exact hall pre now k hpre hends
  · intro hlag pre now k hpre hends
    obtain ⟨hk, hlast⟩ := (endsStep_iff hdt hstart hquiet hpre).1 hends
    rw [hlast, honTime]
    refine hlag k hk ?_
    obtain ⟨rest, rfl⟩ := hpre
    rw [← hlast]
    simp [ticks]

/-! ## Two steps of one tick and a half -/

/-- Two steps of the given durations. -/
def twoSteps (first second : Nat) : MotorSequencePayload :=
  { cmdId := 7
    numSteps := 2
    steps := StdArray.set (StdArray.set (fun _ => default) 0 ⟨100, first⟩) 1 ⟨100, second⟩ }

/-- The second step ends 40 ms after the start, a whole tick late. -/
theorem secondStep_late :
    ¬ ∀ (pf : Platform ℚ) (cmd : MotorSequencePayload) (w : World ℚ) (es : List (Event ℚ)),
      0 < pf.kTickUs → 1 ≤ min cmd.numSteps kMaxSubCmds → 0 < cmd.durationUs 0 →
      let w₁ := (bus pf).publish (.motorSequence cmd) w
      ¬ SequenceSince w₁.history (run pf w₁ es) →
      ∀ pre now k, pre ++ [.tick now] <+: es →
        EndsStep (run pf w₁ pre) (run pf w₁ (pre ++ [.tick now])) k →
        OnTime pf.kTickUs cmd k (ticks (pre ++ [.tick now]) * pf.kTickUs) := by
  intro hall
  have hlate := hall (.libstdcxx fun _ _ => 0) (twoSteps 15000 15000) World.init
    [.tick 1, .tick 2, .tick 3, .tick 4] (by decide) (by decide) (by decide)
    (not_sequenceSince (by decide +kernel)) [.tick 1, .tick 2, .tick 3] 4 1 (List.prefix_refl _)
    (by decide +kernel)
  exact absurd hlate.2 (by decide)

/-- With steps of 25 ms and 10 ms only one is rounded up. -/
theorem secondStep_onTime : OnTime 10000 (twoSteps 25000 10000) 1 40000 := by
  have hall := (run_onTime_iff (.libstdcxx fun _ _ => (0 : ℚ)) (by decide) (twoSteps 25000 10000)
    (by decide) (by decide) World.init [.tick 1, .tick 2, .tick 3, .tick 4]
    (not_sequenceSince (by decide +kernel))).2 (by decide)
  exact hall [.tick 1, .tick 2, .tick 3] 4 1 (List.prefix_refl _) (by decide +kernel)

end App

end ReflectPytest
