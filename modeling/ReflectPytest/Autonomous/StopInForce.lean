import ReflectPytest.Autonomous.MotorCommands
import Mathlib.Data.List.Induction

set_option autoImplicit false

/-! # The motor command an ended route leaves in force

Reaching the last node ends a route with a stop. A command without nodes ends it too, but publishes
nothing, so whatever the route last commanded stays in force. `run_stopped_iff` says that this is
the only way to drive without a route. -/

namespace ReflectPytest

variable {F : Type}

/-- One step of speed 0 and duration 0. -/
def MotorSequencePayload.IsStop (seq : MotorSequencePayload) : Prop :=
  seq.numSteps = 1 ∧ seq.steps.get? 0 = some ⟨0, 0⟩

instance (seq : MotorSequencePayload) : Decidable seq.IsStop := inferInstanceAs (Decidable (_ ∧ _))

/-- The motor sequence published last. -/
def inForce (es : List (Effect F)) : Option MotorSequencePayload := (sequences es).getLast?

namespace AutonomousService

/-- Without a route only a stop is in force. -/
def StoppedWhenIdle (r : AutonomousService F × List (Effect F)) : Prop :=
  r.1.routeActive = false → ∀ seq ∈ inForce r.2, seq.IsStop

/-- A command without nodes replaces a running route that has the motor turning. -/
def Abandons (r : AutonomousService F × List (Effect F)) (i : Input F) : Prop :=
  r.1.routeActive = true ∧ (∃ seq ∈ inForce r.2, ¬ seq.IsStop) ∧
    ∃ cmd, i = .autoDriveCommand cmd ∧ cmd.numNodes = 0

variable [FloatOps F]

/-- **How a step can leave the service without a route**: there was none and nothing went out, the
    step delivered a command without nodes, or it published the stop last. -/
theorem step_idle (deref : EnvPtr → EnvironmentPayload F) (s : AutonomousService F) (i : Input F)
    (h : (s.step deref i).1.routeActive = false) :
    (s.commands deref i = [] ∧ s.routeActive = false) ∨
    (s.commands deref i = [] ∧ ∃ cmd, i = .autoDriveCommand cmd ∧ cmd.numNodes = 0) ∨
    ∃ cs, s.commands deref i = cs ++ [.stop] := by
  cases i with
  | autoDriveCommand cmd =>
      have hempty : cmd.numNodes = 0 := by
        simpa [step, onAutoDriveCommand, acceptCommand] using h
      refine Or.inr (Or.inl ⟨?_, cmd, rfl, hempty⟩)
      simp [commands, driving, acceptCommand, hempty]
  | internalEnvData env =>
      have hs : s.routeActive = false := (onInternalEnvData_mission deref s env).active ▸ h
      refine Or.inl ⟨?_, hs⟩
      simp only [commands, driving, (onInternalEnvData_mission deref s env).active, hs,
        Bool.false_eq_true, if_false]
  | powerData power => exact Or.inl ⟨rfl, h⟩
  | physicsTick => exact Or.inl ⟨rfl, h⟩
  | kinematicsData kin replies =>
      cases hidle : s.idle with
      | true =>
          have hs : s.routeActive = false := by
            simpa [step, onKinematicsData, hidle, rememberPosition] using h
          exact Or.inl ⟨by simp [commands, hidle], hs⟩
      | false =>
          have hactive : (s.answered deref kin replies).1.routeActive = true :=
            (answered_mission deref s kin replies).active.trans (idle_eq_false.1 hidle).1
          have hoff : ((s.answered deref kin replies).1.checkNode deref s.currentNodeIdx
              kin).1.routeActive = false := by
            simpa [step, onKinematicsData_eq deref s kin replies hidle, rememberPosition] using h
          refine Or.inr (Or.inr ⟨s.commandsOnAnswer deref kin replies, ?_⟩)
          simp only [commands, hidle, Bool.false_eq_true, if_false, commandsOnCheck, hoff]
          split
          · rfl
          · next hmiss =>
              -- A sample that reaches nothing would have left the route active.
              rw [checkNode_miss deref (Bool.eq_false_iff.2 hmiss), hactive] at hoff
              exact absurd hoff (by simp)

theorem stopSequence_isStop : stopSequence.IsStop := by decide

/-- **Step lemma**: a step keeps only stops in force without a route unless it abandons one. -/
theorem step_stopped_iff (deref : EnvPtr → EnvironmentPayload F) {s : AutonomousService F}
    {es : List (Effect F)} (hs : StoppedWhenIdle (s, es)) (i : Input F) :
    StoppedWhenIdle ((s.step deref i).1, es ++ (s.step deref i).2) ↔ ¬ Abandons (s, es) i := by
  have hforce : inForce (es ++ (s.step deref i).2) =
      (sequences es ++ (s.commands deref i).map Command.sequence).getLast? := by
    rw [inForce, sequences_append, sequences_step]
  constructor
  · rintro hstopped ⟨-, ⟨seq, hseq, hturning⟩, cmd, rfl, hempty⟩
    refine hturning (hstopped ?_ seq ?_)
    · simp [step, onAutoDriveCommand, acceptCommand, hempty]
    · dsimp only
      rw [hforce]
      have hnone : s.commands deref (.autoDriveCommand cmd) = [] := by
        simp [commands, driving, acceptCommand, hempty]
      rw [hnone, List.map_nil, List.append_nil]
      exact hseq
  · intro hkept hoff seq hseq
    dsimp only at hseq
    rw [hforce] at hseq
    rcases step_idle deref s i hoff with ⟨hnone, hidle⟩ | ⟨hnone, cmd, rfl, hempty⟩ | ⟨cs, hstop⟩
    · rw [hnone, List.map_nil, List.append_nil] at hseq
      exact hs hidle seq hseq
    · rw [hnone, List.map_nil, List.append_nil] at hseq
      cases hactive : s.routeActive with
      | false => exact hs hactive seq hseq
      | true =>
          by_contra hturning
          exact hkept ⟨hactive, ⟨seq, hseq, hturning⟩, cmd, rfl, hempty⟩
    · rw [hstop, List.map_append, ← List.append_assoc, List.map_singleton,
        List.getLast?_concat] at hseq
      obtain rfl := Option.some.inj hseq
      exact stopSequence_isStop

theorem run_concat (s : AutonomousService F)
    (pre : List ((EnvPtr → EnvironmentPayload F) × Input F))
    (i : (EnvPtr → EnvironmentPayload F) × Input F) :
    s.run (pre ++ [i]) = (((s.run pre).1.step i.1 i.2).1,
      (s.run pre).2 ++ ((s.run pre).1.step i.1 i.2).2) := by
  rw [run_append]
  simp [run]

theorem init_stopped : StoppedWhenIdle ((init : AutonomousService F), []) := by
  intro _ seq hseq
  exact absurd hseq (by simp [inForce])

/-- **No drive without a route**: in every state of a run only a stop is in force without a route,
    if and only if no step of the run abandons a route. -/
theorem run_stopped_iff (inputs : List ((EnvPtr → EnvironmentPayload F) × Input F)) :
    (∀ pre, pre <+: inputs → StoppedWhenIdle ((init : AutonomousService F).run pre)) ↔
      ∀ pre i, pre ++ [i] <+: inputs → ¬ Abandons ((init : AutonomousService F).run pre) i.2 := by
  constructor
  · intro hall pre i hpre
    have hbefore := hall pre ((List.prefix_append pre [i]).trans hpre)
    have hafter := hall (pre ++ [i]) hpre
    rw [run_concat] at hafter
    exact (step_stopped_iff i.1 hbefore i.2).1 hafter
  · intro hkept pre
    induction pre using List.reverseRecOn with
    | nil => exact fun _ => init_stopped
    | append_singleton pre i ih =>
        intro hpre
        have hbefore := ih ((List.prefix_append pre [i]).trans hpre)
        rw [run_concat]
        exact (step_stopped_iff i.1 hbefore i.2).2 (hkept pre i hpre)

/-! ## A route that is replaced by nothing -/

/-- One node far ahead, then a command without nodes. -/
def emptyRoute : List ((EnvPtr → EnvironmentPayload ℚ) × Input ℚ) :=
  [(fun _ => default, .autoDriveCommand { (default : AutoDriveCommandPayload ℚ) with
      numNodes := 1, route := fun _ => ⟨⟨10, 0⟩, 5000⟩ }),
    (fun _ => default, .autoDriveCommand default)]

/-- The motor keeps turning at 750 rpm. -/
theorem emptyRoute_drives :
    ¬ ∀ (inputs : List ((EnvPtr → EnvironmentPayload ℚ) × Input ℚ)),
      StoppedWhenIdle ((init : AutonomousService ℚ).run inputs) := by
  intro h
  have hseq : inForce ((init : AutonomousService ℚ).run emptyRoute).2 =
      some ⟨999, 1, StdArray.set (fun _ => default) 0 ⟨750, 5000000⟩⟩ := by
    decide +kernel
  exact absurd (h emptyRoute rfl _ hseq) (by decide)

end AutonomousService

end ReflectPytest
