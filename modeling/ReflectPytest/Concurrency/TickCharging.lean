import ReflectPytest.Concurrency.Agreement

set_option autoImplicit false

/-! # Ticks are charged to the step they were emitted for

`MotorService` recognises a tick of another command by its `cmd_id` alone. A tick is therefore
charged to a step announced after its snapshot whenever identifiers are reused while it is pending,
which `AutonomousService` does by design and any client can do. `ChargesOwn` rules that out. -/

namespace ReflectPytest

open SyncBus

variable {F : Type} [FloatOps F]

namespace App

/-- The steps after which a pending tick still belongs to the step it was emitted for. A command
    that starts has another identifier than every tick snapshotted and not handled by `MotorService`
    yet; and no snapshot is taken while the status of a command is on its way to `StateService` that
    has the identifier cached there. -/
def ChargesOwn (c : AppConfig F) : Thread × Option (AppFrame F) → Prop
  | (_, some (.call .motor (.motorSequence cmd))) =>
      MotorService.startsImmediately (MotorService.accept cmd) = true →
        ∀ tick ∈ pendingTicks c, tick.cmdId ≠ cmd.cmdId
  | (.clock, none) =>
      c.world.clockTick = none → c.world.motor.active = true →
        OnItsWay c .state c.world.motor.status →
          c.world.state.lastCmdId ≠ c.world.motor.currentCmd.cmdId
  | _ => True

instance (c : AppConfig F) (a : Thread × Option (AppFrame F)) : Decidable (ChargesOwn c a) := by
  obtain ⟨t, frame⟩ := a
  unfold ChargesOwn
  split <;> infer_instance

/-- The last status published in the history is `ms`. -/
def LastPublished (ms : MotorStatusPayload) (history : List (Record F)) : Prop :=
  ∃ between before, history = between ++ .published (.motorStatus ms) :: before ∧
    ∀ ms', .published (.motorStatus ms') ∉ between

/-- The step the motor is in was announced by the last status, the tick is the last snapshot and was
    taken after that status, and both carry the same identifier and speed. -/
def EmittedFor (w : World F) (tick : PhysicsTickPayload) : Prop :=
  (∃ after rest, w.history = after ++ .snapshot tick :: rest ∧
    LastPublished w.motor.status rest ∧ (∀ ms, .published (.motorStatus ms) ∉ after) ∧
    ∀ tick', .snapshot tick' ∉ after) ∧
  tick.cmdId = w.motor.status.cmdId ∧ tick.speedRpm = w.motor.status.speedRpm

/-! ## The invariant -/

omit [FloatOps F] in
theorem LastPublished.cons {ms : MotorStatusPayload} {history : List (Record F)}
    (h : LastPublished ms history) {r : Record F}
    (hr : ∀ ms', r ≠ .published (.motorStatus ms')) : LastPublished ms (r :: history) := by
  obtain ⟨between, before, rfl, hbetween⟩ := h
  exact ⟨r :: between, before, rfl,
    fun ms' hm => (List.mem_cons.1 hm).elim (fun he => hr ms' he.symm) (hbetween ms')⟩

omit [FloatOps F] in
theorem EmittedFor.congr {w w' : World F} {tick : PhysicsTickPayload} (h : EmittedFor w tick)
    (hmotor : w'.motor = w.motor) (hhist : w'.history = w.history) : EmittedFor w' tick := by
  unfold EmittedFor
  rw [hmotor, hhist]
  exact h

omit [FloatOps F] in
/-- Publishing anything but a status keeps it. -/
theorem EmittedFor.publish {w w' : World F} {tick : PhysicsTickPayload} (h : EmittedFor w tick)
    {m : Msg F} (hm : m.id ≠ .motorStatus) (hmotor : w'.motor = w.motor)
    (hhist : w'.history = .published m :: w.history) : EmittedFor w' tick := by
  obtain ⟨⟨after, rest, heq, hlast, hstatus, hsnap⟩, hfields⟩ := h
  refine ⟨⟨.published m :: after, rest, by rw [hhist, heq]; rfl, hmotor ▸ hlast, fun ms hmem => ?_,
    fun tick' hmem => ?_⟩, hmotor ▸ hfields⟩
  · rcases List.mem_cons.1 hmem with he | hmem
    · exact hm (Record.published.inj he ▸ rfl)
    · exact hstatus ms hmem
  · exact (List.mem_cons.1 hmem).elim nofun (hsnap tick')

/-- A tick that would be charged was emitted for the step the motor is in, and that step's status
    has reached `StateService`; and the running step has been announced. -/
structure Charging (c : AppConfig F) (ph : Phase) : Prop where
  agree : Agree c ph
  announced : (∀ t, ph ≠ .unpublished t) → c.world.motor.active = true →
    LastPublished c.world.motor.status c.world.history
  pending : ∀ tick ∈ pendingTicks c, c.world.motor.charges tick = true →
    ¬ ph.Owes .state ∧ EmittedFor c.world tick

theorem start_charging : Charging (start : AppConfig F) .free :=
  ⟨start_agree, fun _ h => absurd h Bool.false_ne_true, fun _ h => absurd h List.not_mem_nil⟩

omit [FloatOps F] in
theorem charges_iff (s : MotorService) (tick : PhysicsTickPayload) :
    s.charges tick = true ↔ s.active = true ∧ tick.cmdId = s.currentCmd.cmdId := by
  simp [MotorService.charges]

omit [FloatOps F] in
/-- A step that only publishes messages of others keeps the invariant. -/
theorem Charging.unrelated {c c' : AppConfig F} {ph : Phase} (h : Charging c ph)
    (hun : Unrelated c c') : Charging c' ph := by
  refine ⟨fun howes => (h.agree howes).congr hun.motor hun.state, fun hph hactive => ?_,
    fun tick htick hcharge => ?_⟩
  · rw [hun.motor] at hactive ⊢
    have hlast := h.announced hph hactive
    rcases hun.history with he | ⟨m, hm, he⟩ <;> rw [he]
    · exact hlast
    · exact hlast.cons fun ms' heq => hm (Record.published.inj heq ▸ rfl)
  · rw [hun.ticks] at htick
    rw [hun.motor] at hcharge
    obtain ⟨howes, hfor⟩ := h.pending tick htick hcharge
    refine ⟨howes, ?_⟩
    rcases hun.history with he | ⟨m, hm, he⟩
    · exact hfor.congr hun.motor he
    · exact hfor.publish hm hun.motor he

/-- **Step lemma.** -/
theorem Change.charging {pf : Platform F} {c c' : AppConfig F} {a : Thread × Option (AppFrame F)}
    {ph ph' : Phase} (hph : InPhase c ph) (hc : Change pf c a ph c' ph') (hown : ChargesOwn c a)
    (h : Charging c ph) : Charging c' ph' := by
  have hagree : Agree c' ph' := hc.agree h.agree
  cases hc with
  | elsewhere hun _ => exact h.unrelated hun
  | moved hun _ => exact h.unrelated hun
  | snapshot hnone hmotor hstate _ hhist hticks =>
      refine ⟨hagree, fun hph' hactive => ?_, fun tick htick hcharge => ?_⟩
      · rw [hmotor] at hactive ⊢
        exact hhist ▸ (h.announced hph' hactive).cons fun _ => nofun
      · obtain rfl : tick = _ := List.mem_singleton.1 (hticks ▸ htick)
        rw [hmotor] at hcharge
        obtain ⟨hactive, hid⟩ := (charges_iff _ _).1 hcharge
        have howes : ¬ ph.Owes .state :=
          fun howes => hown hnone hactive (hph.onItsWay_iff.2 ⟨howes, rfl⟩) hid
        have hph' : ∀ t, ph ≠ .unpublished t := fun t he => howes (he ▸ trivial)
        -- The cached state is up to date, so the snapshot carries what was announced last.
        have hmatch : c.world.state = ⟨.executing, c.world.motor.status.cmdId,
            c.world.motor.status.speedRpm, true⟩ := by
          have := h.agree howes
          rwa [Matches, hactive] at this
        refine ⟨howes, ⟨[], c.world.history, hhist, ?_, fun _ => List.not_mem_nil,
          fun _ => List.not_mem_nil⟩, ?_, ?_⟩
        · rw [hmotor]
          exact h.announced hph' hactive
        · rw [hmotor]
          exact hid
        · rw [hmotor]
          simp [StateService.snapshot, hmatch]
  | @sequence t cmd _ hw hticks =>
      refine ⟨hagree, fun hph' _ => absurd rfl (hph' t), fun tick htick hcharge => ?_⟩
      rw [hw] at hcharge
      obtain ⟨hactive, hid⟩ := (charges_iff _ _).1 hcharge
      rw [MotorService.onMotorSequence_active] at hactive
      rw [MotorService.onMotorSequence_cmd, MotorService.accept_cmdId] at hid
      exact absurd hid (hown hactive tick (hticks ▸ htick))
  | @tick t tick _ hw _ hafter =>
      refine ⟨hagree, fun hph' hactive => ?_, fun tick' htick' => ?_⟩
      · cases hms : (c.world.motor.onPhysicsTick tick).2 with
        | some ms =>
            rw [hms] at hph'
            exact absurd rfl (hph' t)
        | none =>
            have hstatus := MotorService.onPhysicsTick_status_of_none hms
            have hsame := congrArg MotorStatusPayload.isActive hstatus
            simp only [MotorService.status_isActive] at hsame
            rw [hw] at hactive ⊢
            rw [hstatus]
            exact h.announced (fun _ => Phase.noConfusion) (hsame.symm.trans hactive)
      · rw [hafter] at htick'
        exact absurd htick' List.not_mem_nil
  | @announce t _ _ hw hticks =>
      refine ⟨hagree, fun _ _ => ?_, fun tick htick hcharge => ?_⟩
      · rw [hw]
        exact ⟨[], _, rfl, fun _ => List.not_mem_nil⟩
      · rw [hw] at hcharge
        exact absurd trivial (h.pending tick (hticks ▸ htick) hcharge).1
  | @deliver t h' hs _ hmotor _ _ hhist hticks =>
      refine ⟨hagree, fun _ hactive => ?_, fun tick htick hcharge => ?_⟩
      · rw [hmotor] at hactive ⊢
        exact hhist ▸ h.announced (fun _ => Phase.noConfusion) hactive
      · rw [hmotor] at hcharge
        obtain ⟨howes, hfor⟩ := h.pending tick (hticks ▸ htick) hcharge
        exact ⟨fun hmem => howes (List.mem_cons_of_mem _ hmem), hfor.congr hmotor hhist⟩
  | @leave t _ _ hw hticks =>
      refine ⟨hagree, fun _ hactive => ?_, fun tick htick hcharge => ?_⟩
      · rw [hw] at hactive ⊢
        exact h.announced (fun _ => Phase.noConfusion) hactive
      · rw [hw] at hcharge
        obtain ⟨-, hfor⟩ := h.pending tick (hticks ▸ htick) hcharge
        exact ⟨id, hfor.congr (by rw [hw]) (by rw [hw])⟩

/-! ## Runs -/

/-- **A tick is charged only to the step it was emitted for**, in every run that keeps identifiers
    of pending ticks apart: when `MotorService` is about to handle a tick that shortens or ends a
    step, the last status announced that step, the tick's snapshot is newer, and both agree. -/
theorem charged_emittedFor (pf : Platform F) (c : AppConfig F)
    (hrun : (machine pf).Run ChargesOwn start c) (t : Thread) (tick : PhysicsTickPayload)
    (rest : List (AppFrame F)) (hstack : c.stack t = .call .motor (.physicsTick tick) :: rest)
    (hcharge : c.world.motor.charges tick = true) : EmittedFor c.world tick := by
  obtain ⟨ph, -, htick, hI⟩ := run_phase start_charging
    (fun c a ph c' ph' hI hph _ hown _ hc => hc.charging hph hown hI) hrun
  have hpending : tick ∈ pendingTicks c := (htick.firing hstack).2.2.1 ▸ List.mem_singleton_self _
  exact (hI.pending tick hpending hcharge).2

/-! ## Two runs -/

/-- The tick `MotorService` is about to handle. -/
def firing : List (AppFrame F) → Option PhysicsTickPayload
  | .call .motor (.physicsTick tick) :: _ => some tick
  | _ => none

omit [FloatOps F] in
theorem exists_of_firing {fs : List (AppFrame F)} {tick : PhysicsTickPayload}
    (h : firing fs = some tick) : ∃ rest, fs = .call .motor (.physicsTick tick) :: rest := by
  unfold firing at h
  split at h
  · obtain rfl := Option.some.inj h
    exact ⟨_, rfl⟩
  · exact absurd h (by simp)

/-- Drive at the given speed for a second. -/
def driveAt (speedRpm : Int) : MotorSequencePayload :=
  { cmdId := 1, numSteps := 1, steps := StdArray.set (fun _ => default) 0 ⟨speedRpm, 1000000⟩ }

/-- The bridge handles a command, and the tick of the next snapshot gets to `MotorService`. -/
def firstTick : List (Move ℚ) :=
  .datagram (.motorSequence (driveAt 1000)) :: List.replicate 12 (.advance .bridge) ++
    [.snapshot, .tick] ++ List.replicate 9 (.advance .clock)

theorem firstTick_emittedFor :
    ∃ c : AppConfig ℚ, EmittedFor c.world ⟨1, 1000, 10000⟩ := by
  have hplay : ((play (.libstdcxx fun _ _ => 0) ChargesOwn start firstTick).map fun c =>
      (firing (c.stack .clock), c.world.motor.charges ⟨1, 1000, 10000⟩)) =
      some (some ⟨1, 1000, 10000⟩, true) := by
    decide +kernel
  obtain ⟨c, hc, hfacts⟩ := Option.map_eq_some_iff.1 hplay
  obtain ⟨hfiring, hcharge⟩ := Prod.mk.inj hfacts
  obtain ⟨rest, hstack⟩ := exists_of_firing hfiring
  exact ⟨c, charged_emittedFor _ c (play_run hc) .clock _ rest hstack hcharge⟩

/-- Between the snapshot and its publish the bridge replaces the command by one of the same
    identifier. -/
def reusedId : List (Move ℚ) :=
  .datagram (.motorSequence (driveAt 1000)) :: List.replicate 12 (.advance .bridge) ++
    [.snapshot, .datagram (.motorSequence (driveAt 500))] ++ List.replicate 12 (.advance .bridge) ++
    [.tick] ++ List.replicate 9 (.advance .clock)

/-- The tick of the first command is charged to the second. -/
theorem reusedId_charged :
    ¬ ∀ (pf : Platform ℚ) (c : AppConfig ℚ), Reachable pf c →
      ∀ (t : Thread) (tick : PhysicsTickPayload) (rest : List (AppFrame ℚ)),
        c.stack t = .call .motor (.physicsTick tick) :: rest → c.world.motor.charges tick = true →
        EmittedFor c.world tick := by
  intro h
  have hplay : ((play (.libstdcxx fun _ _ => 0) (fun _ _ => True) start reusedId).map fun c =>
      (firing (c.stack .clock), c.world.motor.charges ⟨1, 1000, 10000⟩,
        c.world.motor.status.speedRpm)) = some (some ⟨1, 1000, 10000⟩, true, 500) := by
    decide +kernel
  obtain ⟨c, hc, hfacts⟩ := Option.map_eq_some_iff.1 hplay
  obtain ⟨hfiring, hfacts⟩ := Prod.mk.inj hfacts
  obtain ⟨hcharge, hspeed⟩ := Prod.mk.inj hfacts
  obtain ⟨rest, hstack⟩ := exists_of_firing hfiring
  have hsame := (h _ c (play_run hc) .clock _ rest hstack hcharge).2.2
  rw [hspeed] at hsame
  exact absurd hsame (by decide)

end App

end ReflectPytest
