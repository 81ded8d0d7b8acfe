import ReflectPytest.Concurrency.MotorPhase

set_option autoImplicit false

/-! # Ready means at rest

`KinematicsService` learns of a stop from the inactive `MotorStatus`, but it takes its speed from
ticks, and a tick carries a snapshot that may be older than the stop. The vehicle of a Ready system
therefore moves when such a tick is handled late; and between the moments a stop reaches the two
services the system is Ready and the vehicle is not at rest yet. `StopsCleanly` rules out those two
steps. -/

namespace ReflectPytest

open SyncBus FloatOps

namespace App

variable {F : Type} [FloatOps F]

/-- Sums that start at 0, as positions do. -/
inductive Summed : F → Prop
  | zero : Summed 0
  | add {p : F} (x : F) (h : Summed p) : Summed (p + x)

/-- What a vehicle at rest takes of the arithmetic: no speed is no distance, and no distance changes
    no sum; a sum that starts at 0 is never the negative zero. -/
class RestLaws (F : Type) [FloatOps F] : Prop where
  zero_rpm : (ofInt 0 * kRpmToMps : F) = 0
  zero_dt (tick : PhysicsTickPayload) : (0 * tick.dtS : F) = 0
  add_zero {p : F} : Summed p → p + 0 = p

instance : RestLaws ℚ where
  zero_rpm := by simp
  zero_dt _ := zero_mul _
  add_zero _ := add_zero _

/-- The steps that stop the vehicle cleanly. A tick with a speed is handled only while the system is
    executing and the motor is active or its stop is still on its way; and outside the dispatch of a
    tick a stop reaches `StateService` only once `KinematicsService` has been given it, or is at
    rest anyway. -/
def StopsCleanly (c : AppConfig F) : Thread × Option (AppFrame F) → Prop
  | (_, some (.call .kinematics (.physicsTick tick))) =>
      tick.speedRpm ≠ 0 → c.world.state.state = .executing ∧
        (c.world.motor.active = true ∨ OnItsWay c .kinematics c.world.motor.status)
  | (t, some (.call .state (.motorStatus ms))) =>
      t ≠ .clock → ms.isActive = false →
        c.world.kinematics.speedMps = 0 ∨ ¬ OnItsWay c .kinematics ms
  | _ => True

instance [DecidableEq F] (c : AppConfig F) (a : Thread × Option (AppFrame F)) :
    Decidable (StopsCleanly c a) := by
  unfold StopsCleanly
  split <;> infer_instance

/-- No active status is being published. -/
def NothingStarting (c : AppConfig F) : Prop := ∀ h ms, OnItsWay c h ms → ms.isActive = false

/-- The vehicle stands still, and stays where it is until an active status is published. -/
def StaysAtRest (pf : Platform F) (P : AppConfig F → Thread × Option (AppFrame F) → Prop)
    (c : AppConfig F) : Prop :=
  c.world.kinematics.speedMps = 0 ∧
    ∀ c', (machine pf).Run (fun c a => P c a ∧ NothingStarting c) c c' →
      c'.world.kinematics.positionM = c.world.kinematics.positionM

/-! ## The invariant -/

section

variable [RestLaws F]

theorem speedMps_onPhysicsTick (s : KinematicsService F) {tick : PhysicsTickPayload}
    (h : tick.speedRpm = 0) : (s.onPhysicsTick tick).speedMps = 0 := by
  rw [KinematicsService.onPhysicsTick, h]
  exact RestLaws.zero_rpm

theorem positionM_onPhysicsTick {s : KinematicsService F} (hs : Summed s.positionM)
    {tick : PhysicsTickPayload} (h : tick.speedRpm = 0) :
    (s.onPhysicsTick tick).positionM = s.positionM := by
  rw [KinematicsService.onPhysicsTick, h]
  dsimp only
  rw [RestLaws.zero_rpm, RestLaws.zero_dt, RestLaws.add_zero hs]

end

/-- The vehicle moves only while the system is executing, or the clock is about to stop it in the
    dispatch of a tick; and only while the motor is active, or its stop has not reached
    `KinematicsService`. -/
structure MovesExecuting (c : AppConfig F) (ph : Phase) : Prop where
  position : Summed c.world.kinematics.positionM
  state : c.world.state.state ≠ .executing → c.world.kinematics.speedMps = 0 ∨
    (c.world.motor.active = false ∧ ph.Owes .kinematics ∧ ph.owner = some .clock)
  motor : c.world.motor.active = false → ¬ ph.Owes .kinematics →
    c.world.kinematics.speedMps = 0

theorem start_movesExecuting : MovesExecuting (start : AppConfig F) .free :=
  ⟨.zero, fun _ => Or.inl rfl, fun _ _ => rfl⟩

theorem MovesExecuting.congr {c c' : AppConfig F} {ph : Phase} (h : MovesExecuting c ph)
    (hmotor : c'.world.motor = c.world.motor) (hstate : c'.world.state = c.world.state)
    (hkin : c'.world.kinematics = c.world.kinematics) : MovesExecuting c' ph :=
  ⟨by rw [hkin]; exact h.position, by rw [hmotor, hstate, hkin]; exact h.state,
    by rw [hmotor, hkin]; exact h.motor⟩

/-- With the motor free there is nothing left to stop the vehicle. -/
theorem MovesExecuting.free {c : AppConfig F} (h : MovesExecuting c .free)
    (hne : c.world.state.state ≠ .executing) : c.world.kinematics.speedMps = 0 :=
  (h.state hne).elim id fun howes => howes.2.1.elim

/-- **Step lemma.** A clean step keeps the invariant. -/
theorem Change.movesExecuting [RestLaws F] {pf : Platform F} {c c' : AppConfig F}
    {a : Thread × Option (AppFrame F)} {ph ph' : Phase} (hph : InPhase c ph)
    (hc : Change pf c a ph c' ph') (hclean : StopsCleanly c a) (h : MovesExecuting c ph) :
    MovesExecuting c' ph' := by
  cases hc with
  | elsewhere hun hkin => exact h.congr hun.motor hun.state hkin
  | snapshot _ hmotor hstate hkin _ _ => exact h.congr hmotor hstate hkin
  | @moved _ tick _ _ hun hkin =>
      have hsummed : Summed c'.world.kinematics.positionM := hkin ▸ h.position.add _
      by_cases hzero : tick.speedRpm = 0
      · have hrest := speedMps_onPhysicsTick c.world.kinematics hzero
        exact ⟨hsummed, fun _ => Or.inl (hkin ▸ hrest), fun _ _ => hkin ▸ hrest⟩
      · obtain ⟨hexec, hmotor⟩ := hclean hzero
        refine ⟨hsummed, fun hne => absurd (hun.state ▸ hexec) hne, fun hoff howes => ?_⟩
        rw [hun.motor] at hoff
        have hway := hmotor.resolve_left (by rw [hoff]; exact Bool.false_ne_true)
        exact absurd (hph.onItsWay_iff.1 hway).1 howes
  | sequence hw _ =>
      refine ⟨hw ▸ h.position, fun hne => Or.inl ?_, fun _ howes => absurd trivial howes⟩
      rw [hw] at hne ⊢
      exact h.free hne
  | @tick _ tick _ hw _ _ =>
      have hstate : c'.world.state.state ≠ .executing → c'.world.kinematics.speedMps = 0 := by
        rw [hw]
        exact h.free
      refine ⟨hw ▸ h.position, fun hne => Or.inl (hstate hne), fun hoff howes => ?_⟩
      cases hms : (c.world.motor.onPhysicsTick tick).2 with
      | some ms =>
          rw [hms] at howes
          exact absurd trivial howes
      | none =>
          have hactive := congrArg MotorStatusPayload.isActive
            (MotorService.onPhysicsTick_status_of_none hms)
          simp only [MotorService.status_isActive] at hactive
          rw [hw] at hoff ⊢
          exact h.motor (hactive.symm.trans hoff) id
  | announce hw _ =>
      have howes : .kinematics ∈ (bus pf).subscribers (.motorStatus c.world.motor.status) :=
        mem_subscribers.2 (by simp [Service.subscribes, Msg.id])
      refine ⟨hw ▸ h.position, fun hne => ?_, fun _ hnot => absurd howes hnot⟩
      rw [hw] at hne ⊢
      refine (h.state hne).imp_right ?_
      rintro ⟨hoff, -, howner⟩
      exact ⟨hoff, howes, howner⟩
  | @deliver t h' hs _ hmotor hstate hkin _ _ =>
      have hspeed : c.world.kinematics.speedMps = 0 → c'.world.kinematics.speedMps = 0 := by
        intro hzero
        rw [hkin]
        split_ifs
        · rw [KinematicsService.onMotorStatus_speedMps, hzero, ite_self]
        · exact hzero
      have hstopped : c'.world.motor.active = false → .kinematics ∉ hs →
          c'.world.kinematics.speedMps = 0 := by
        intro hoff howes
        rw [hmotor] at hoff
        by_cases he : h' = .kinematics
        · rw [hkin, if_pos he, KinematicsService.onMotorStatus_speedMps,
            MotorService.status_isActive, hoff]
          rfl
        · exact hspeed (h.motor hoff fun hmem =>
            (List.mem_cons.1 hmem).elim (fun heq => he heq.symm) howes)
      have hsummed : Summed c'.world.kinematics.positionM := by
        rw [hkin]
        split_ifs
        · rw [KinematicsService.onMotorStatus_positionM]
          exact h.position
        · exact h.position
      refine ⟨hsummed, fun hne => ?_, hstopped⟩
      by_cases he : h' = .state
      · subst he
        -- The state is no longer Executing because it has just been given a stop.
        have hoff : c.world.motor.active = false := by
          rw [hstate, if_pos rfl, StateService.onMotorStatus_eq] at hne
          exact Bool.eq_false_iff.2 fun hon => hne (StateService.stateFor_eq_executing.2 hon)
        by_cases howes : .kinematics ∈ hs
        · by_cases hclock : t = .clock
          · exact Or.inr ⟨by rw [hmotor]; exact hoff, howes, congrArg some hclock⟩
          · refine Or.inl (hspeed ((hclean hclock hoff).resolve_right fun hway => hway ?_))
            exact hph.onItsWay_iff.2 ⟨List.mem_cons_of_mem _ howes, rfl⟩
        · exact Or.inl (hstopped (by rw [hmotor]; exact hoff) howes)
      · rw [hstate, if_neg he] at hne
        rcases h.state hne with hzero | ⟨hoff, -, howner⟩
        · exact Or.inl (hspeed hzero)
        · by_cases howes : .kinematics ∈ hs
          · exact Or.inr ⟨by rw [hmotor]; exact hoff, howes, howner⟩
          · exact Or.inl (hstopped (by rw [hmotor]; exact hoff) howes)
  | leave hw _ =>
      refine ⟨hw ▸ h.position, fun hne => Or.inl ?_, fun hoff _ => ?_⟩ <;> rw [hw] at *
      · exact (h.state hne).elim id fun howes => absurd howes.2.1 List.not_mem_nil
      · exact h.motor hoff List.not_mem_nil

/-! ## Runs -/

/-- The vehicle of a system that is not executing is at `positionM`. -/
structure Parked (positionM : F) (c : AppConfig F) : Prop where
  state : c.world.state.state ≠ .executing
  position : c.world.kinematics.positionM = positionM

/-- **Step lemma.** Nothing but a start moves a parked vehicle. -/
theorem Change.parked [RestLaws F] {pf : Platform F} {c c' : AppConfig F}
    {a : Thread × Option (AppFrame F)} {ph ph' : Phase} {positionM : F} (hsummed : Summed positionM)
    (hph : InPhase c ph) (hc : Change pf c a ph c' ph') (hclean : StopsCleanly c a)
    (hstart : NothingStarting c) (h : Parked positionM c) : Parked positionM c' := by
  cases hc with
  | elsewhere hun hkin => exact ⟨hun.state ▸ h.state, hkin ▸ h.position⟩
  | snapshot _ _ hstate hkin _ _ => exact ⟨hstate ▸ h.state, hkin ▸ h.position⟩
  | @moved _ tick _ _ hun hkin =>
      have hzero : tick.speedRpm = 0 := by
        by_contra hne
        exact h.state (hclean hne).1
      refine ⟨hun.state ▸ h.state, ?_⟩
      rw [hkin, positionM_onPhysicsTick (h.position ▸ hsummed) hzero]
      exact h.position
  | sequence hw _ => exact ⟨hw ▸ h.state, hw ▸ h.position⟩
  | tick hw _ _ => exact ⟨hw ▸ h.state, hw ▸ h.position⟩
  | announce hw _ => exact ⟨hw ▸ h.state, hw ▸ h.position⟩
  | @deliver _ h' hs _ _ hstate hkin _ _ =>
      refine ⟨?_, ?_⟩
      · rw [hstate]
        split_ifs with he
        · -- Whatever is being delivered is a stop.
          have hoff := hstart h' c.world.motor.status
            (hph.onItsWay_iff.2 ⟨List.mem_cons_self, rfl⟩)
          rw [StateService.onMotorStatus_eq, hoff]
          exact SystemState.noConfusion
        · exact h.state
      · rw [hkin]
        split_ifs
        · rw [KinematicsService.onMotorStatus_positionM]
          exact h.position
        · exact h.position
  | leave hw _ => exact ⟨hw ▸ h.state, hw ▸ h.position⟩

omit [FloatOps F] in
/-- An idle thread is not inside `MotorService`. -/
theorem InPhase.owner_ne {c : AppConfig F} {ph : Phase} (hph : InPhase c ph) {t : Thread}
    (hidle : c.stack t = []) : ph.owner ≠ some t := by
  rcases hph with ⟨rfl, -⟩ | ⟨t₀, fs, post, hb⟩
  · simp [Phase.owner]
  · intro howner
    obtain rfl := Option.some.inj (hb.owner.symm.trans howner)
    have hstack := hb.stack
    rw [hidle] at hstack
    exact absurd hstack.symm (by simp)

/-- **Ready means at rest**, in every run whose steps stop the vehicle cleanly: whenever the system
    is Ready and no tick is being dispatched, the vehicle stands still and stays where it is. -/
theorem ready_at_rest [RestLaws F] (pf : Platform F) (c : AppConfig F)
    (hrun : (machine pf).Run StopsCleanly start c) (hready : c.world.state.state = .ready)
    (hidle : c.stack .clock = []) : StaysAtRest pf StopsCleanly c := by
  obtain ⟨ph, hph, htick, hmoves⟩ := run_phase start_movesExecuting
    (fun c a ph c' ph' hI hph _ hclean _ hc => hc.movesExecuting hph hclean hI) hrun
  have hstate : c.world.state.state ≠ .executing := hready ▸ SystemState.noConfusion
  refine ⟨(hmoves.state hstate).resolve_right fun h => hph.owner_ne hidle h.2.2, fun c' hrun' => ?_⟩
  obtain ⟨-, -, -, hparked⟩ := Machine.Run.invariant
    (I := fun c' => ∃ ph, InPhase c' ph ∧ OneTick c' ∧ Parked c.world.kinematics.positionM c')
    hrun' ⟨ph, hph, htick, hstate, rfl⟩ (by
      rintro c₁ a c₂ ⟨ph₁, hph₁, htick₁, hparked₁⟩ ⟨hclean, hstart⟩ hstep
      obtain ⟨ph₂, hph₂, htick₂, hc⟩ := step_change hph₁ htick₁ hstep
      exact ⟨ph₂, hph₂, htick₂, hc.parked hmoves.position hph₁ hclean hstart hparked₁⟩)
  exact hparked.position

/-! ## Two drives -/

/-- Drive at 1000 rpm for 10 ms. -/
def shortDrive : MotorSequencePayload :=
  { cmdId := 1, numSteps := 1, steps := StdArray.set (fun _ => default) 0 ⟨1000, 10000⟩ }

/-- The bridge handles a command, the clock takes its snapshot, and the tick ends the drive. -/
def driveOut : List (Move ℚ) :=
  .datagram (.motorSequence shortDrive) :: List.replicate 12 (.advance .bridge) ++
    [.snapshot, .tick] ++ List.replicate 24 (.advance .clock)

theorem driveOut_at_rest :
    ∃ c : AppConfig ℚ, c.world.kinematics.positionM = 1 / 10 ∧
      StaysAtRest (.libstdcxx fun _ _ => 0) StopsCleanly c := by
  have hplay : ((play (.libstdcxx fun _ _ => 0) StopsCleanly start driveOut).map fun c =>
      (c.world.kinematics.positionM, c.world.state.state, (c.stack .clock).isEmpty)) =
      some (1 / 10, .ready, true) := by
    decide +kernel
  obtain ⟨c, hc, hfacts⟩ := Option.map_eq_some_iff.1 hplay
  obtain ⟨hpos, hready, hidle⟩ : _ ∧ _ ∧ _ := by simpa using hfacts
  exact ⟨c, by simpa using hpos,
    ready_at_rest _ c (play_run hc) hready (by simpa using hidle)⟩

/-- The bridge stops the drive after the clock's snapshot and before its publish. -/
def staleTick : List (Move ℚ) :=
  .datagram (.motorSequence shortDrive) :: List.replicate 12 (.advance .bridge) ++
    [.snapshot, .datagram (.motorSequence default)] ++ List.replicate 12 (.advance .bridge) ++
    [.tick] ++ List.replicate 24 (.advance .clock)

/-- The stale tick sets the vehicle of a Ready system in motion. -/
theorem staleTick_moves :
    ¬ ∀ (pf : Platform ℚ) (c : AppConfig ℚ), Reachable pf c → c.world.state.state = .ready →
      c.stack .clock = [] → StaysAtRest pf (fun _ _ => True) c := by
  intro h
  have hplay : ((play (.libstdcxx fun _ _ => 0) (fun _ _ => True) start staleTick).map fun c =>
      (c.world.kinematics.speedMps, c.world.state.state, (c.stack .clock).isEmpty)) =
      some (10, .ready, true) := by
    decide +kernel
  obtain ⟨c, hc, hfacts⟩ := Option.map_eq_some_iff.1 hplay
  obtain ⟨hspeed, hready, hidle⟩ : _ ∧ _ ∧ _ := by simpa using hfacts
  have hrest := (h _ c (play_run hc) hready (by simpa using hidle)).1
  rw [hspeed] at hrest
  exact absurd hrest (by norm_num)

end App

end ReflectPytest
