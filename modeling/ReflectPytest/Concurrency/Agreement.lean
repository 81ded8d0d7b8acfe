import ReflectPytest.Concurrency.MotorPhase

set_option autoImplicit false

/-! # Motor and lifecycle agree

`StateService` keeps a copy of what `MotorService` last announced. The copy lags behind only while
the status is on its way to it, and then a thread is inside `MotorService`. -/

namespace ReflectPytest

open SyncBus

variable {F : Type} [FloatOps F]

namespace App

/-- Unless the announcement is still on its way to `StateService`, it matches. -/
def Agree (c : AppConfig F) (ph : Phase) : Prop := ¬ ph.Owes .state → Matches c.world

theorem start_agree : Agree (start : AppConfig F) .free := fun _ => rfl

/-- **Step lemma.** Every change keeps the agreement. -/
theorem Change.agree {pf : Platform F} {c c' : AppConfig F} {a : Thread × Option (AppFrame F)}
    {ph ph' : Phase} (hc : Change pf c a ph c' ph') (h : Agree c ph) : Agree c' ph' := by
  intro howes
  cases hc with
  | elsewhere hun _ => exact (h howes).congr hun.motor hun.state
  | snapshot _ hmotor hstate => exact (h howes).congr hmotor hstate
  | moved hun _ => exact (h howes).congr hun.motor hun.state
  | sequence _ _ => exact absurd trivial howes
  | @tick _ tick _ hw _ _ =>
      cases hms : (c.world.motor.onPhysicsTick tick).2 with
      | some ms =>
          rw [hms] at howes
          exact absurd trivial howes
      | none =>
          have hstatus := MotorService.onPhysicsTick_status_of_none hms
          have hactive := congrArg MotorStatusPayload.isActive hstatus
          simp only [MotorService.status_isActive] at hactive
          unfold Matches
          rw [hw, hstatus, hactive]
          exact h id
  | announce _ _ => exact absurd (mem_subscribers.2 (by simp [Service.subscribes, Msg.id])) howes
  | @deliver _ h' hs _ hmotor hstate _ _ _ =>
      by_cases he : h' = .state
      · unfold Matches
        rw [hstate, if_pos he, hmotor, StateService.onMotorStatus_eq]
        rfl
      · refine (h fun hmem => ?_).congr hmotor (by rw [hstate, if_neg he])
        exact (List.mem_cons.1 hmem).elim (fun heq => he heq.symm) howes
  | leave hw _ => exact (h List.not_mem_nil).congr (by rw [hw]) (by rw [hw])

/-- Some command the motor received, or none so far. -/
def Received (cmd : MotorSequencePayload) (w : World F) : Prop :=
  cmd = default ∨ .published (.motorSequence cmd) ∈ w.history

/-- The motor executes a command it received. -/
def Executing (c : AppConfig F) (_ : Phase) : Prop :=
  ∃ cmd, Received cmd c.world ∧ c.world.motor.Executes cmd

/-- **Step lemma.** Every change of a run keeps it. -/
theorem Change.executing {pf : Platform F} {P : AppConfig F → Thread × Option (AppFrame F) → Prop}
    {c c' : AppConfig F} {a : Thread × Option (AppFrame F)} {ph ph' : Phase}
    (hrun : (machine pf).Run P start c) (hstep : (machine pf).Step c a c')
    (hc : Change pf c a ph c' ph') (h : Executing c ph) : Executing c' ph' := by
  obtain ⟨cmd, hcmd, hexec⟩ := h
  have hlater : c.world.history <:+ c'.world.history → Received cmd c'.world :=
    fun hle => hcmd.imp_right fun hm => hle.subset hm
  have hun : Unrelated c c' → Executing c' ph' := by
    intro hun
    refine ⟨cmd, hlater ?_, hun.motor ▸ hexec⟩
    rcases hun.history with he | ⟨m, -, he⟩ <;> rw [he]
    exact List.suffix_cons _ _
  cases hc with
  | elsewhere h _ => exact hun h
  | moved h _ => exact hun h
  | snapshot _ hmotor _ _ hhist _ =>
      exact ⟨cmd, hlater (hhist ▸ List.suffix_cons _ _), hmotor ▸ hexec⟩
  | @sequence _ cmd' _ hw _ =>
      refine ⟨cmd', Or.inr ?_, by rw [hw]; exact c.world.motor.onMotorSequence_executes cmd'⟩
      rw [hw]
      exact called_published hrun hstep.mem_stack
  | @tick _ tick _ hw _ _ =>
      refine ⟨cmd, hlater (by rw [hw]), ?_⟩
      rw [hw]
      exact MotorService.onPhysicsTick_executes hexec tick
  | announce hw _ => exact ⟨cmd, hlater (hw ▸ List.suffix_cons _ _), by rw [hw]; exact hexec⟩
  | deliver hmotor _ _ hhist _ => exact ⟨cmd, hlater (by rw [hhist]), hmotor ▸ hexec⟩
  | leave hw _ => exact ⟨cmd, hlater (by rw [hw]), by rw [hw]; exact hexec⟩

omit [FloatOps F] in
/-- With nobody inside `MotorService` the phase is `free`. -/
theorem InPhase.eq_free {c : AppConfig F} {ph : Phase} (hph : InPhase c ph)
    (hfree : ∀ t, ¬ c.holds t .motor) : ph = .free := by
  rcases hph with ⟨rfl, -⟩ | ⟨t, fs, post, hb⟩
  · rfl
  · exact absurd hb.holds (hfree t)

/-- **Motor and lifecycle agree** in every reachable configuration in which no thread is inside a
    `MotorService` handler: `state_` is Executing exactly while the motor is active, and the cached
    command and speed are those of the command being executed, at its current step. -/
theorem motor_lifecycle_agree (pf : Platform F) (c : AppConfig F) (hreach : Reachable pf c)
    (hfree : ∀ t, ¬ c.holds t .motor) :
    (c.world.state.state = .executing ↔ c.world.motor.active = true) ∧
      c.world.state.lastCmdId = c.world.motor.currentCmd.cmdId ∧
      ∃ cmd, Received cmd c.world ∧ c.world.motor.currentCmd = MotorService.accept cmd ∧
        (c.world.motor.active = true →
          c.world.motor.currentStepIdx < min cmd.numSteps kMaxSubCmds) ∧
        c.world.state.lastRpm = if c.world.motor.active
          then clampRpm ((cmd.steps.get? c.world.motor.currentStepIdx).getD default).speedRpm
          else 0 := by
  obtain ⟨ph, hph, -, hagree, cmd, hcmd, hexec⟩ :=
    run_phase (I := fun c ph => Agree c ph ∧ Executing c ph)
      ⟨start_agree, default, Or.inl rfl, MotorService.init_executes⟩
      (fun c a ph c' ph' hI _ hrun _ hstep hc => ⟨hc.agree hI.1, hc.executing hrun hstep hI.2⟩)
      hreach
  obtain rfl := hph.eq_free hfree
  have hmatch : Matches c.world := hagree id
  refine ⟨?_, by rw [hmatch]; rfl, cmd, hcmd, hexec.command, ?_, ?_⟩
  · rw [hmatch]
    exact StateService.stateFor_eq_executing
  · intro hactive
    have hstep := hexec.step hactive
    rwa [hexec.command] at hstep
  · rw [hmatch]
    exact hexec.status_speedRpm

/-- The bridge delivers one command and is done. -/
def oneCommand : List (Move ℚ) :=
  .datagram (.motorSequence
      { cmdId := 7, numSteps := 1, steps := StdArray.set (fun _ => default) 0 ⟨9000, 30000⟩ }) ::
    List.replicate 12 (.advance .bridge)

theorem oneCommand_agrees :
    ∃ c : AppConfig ℚ, c.world.motor.active = true ∧
      (c.world.state.state = .executing ↔ c.world.motor.active = true) := by
  have hplay : ((play (.libstdcxx fun _ _ => 0) (fun _ _ => True) start oneCommand).map fun c =>
      (c.world.motor.active, decide (∀ t, ¬ c.holds t .motor))) = some (true, true) := by
    decide +kernel
  obtain ⟨c, hc, hfacts⟩ := Option.map_eq_some_iff.1 hplay
  obtain ⟨hactive, hfree⟩ := Prod.mk.inj hfacts
  exact ⟨c, hactive, (motor_lifecycle_agree _ c (play_run hc) (of_decide_eq_true hfree)).1⟩

end App

end ReflectPytest
