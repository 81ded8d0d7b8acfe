import ReflectPytest.MotorCore
import ReflectPytest.Concurrency.AppThreads

set_option autoImplicit false

/-! # What a step of the threads can do

`MotorService` announces every change of its state by a `MotorStatus` published from inside its
critical section, so at any time at most one status is on its way. A `Phase` says how far it has got
and `InPhase` reads it off the stacks. `step_change` is the inversion lemma: all that one step can
do to the motor, the lifecycle, the vehicle's motion, the pending tick and the history. Every
invariant over interleavings is derived from it. -/

namespace ReflectPytest

open SyncBus

variable {F : Type} [FloatOps F]

namespace App

/-! ## Stacks -/

/-- A frame outside `MotorService`, about anything but its statuses. -/
def QuietFrame : AppFrame F → Prop
  | .publish m => m.id ≠ .motorStatus
  | .call _ m => m.id ≠ .motorStatus
  | .resume code lock => lock ≠ some .motor ∧ Inert code

def Quiet (fs : List (AppFrame F)) : Prop := ∀ f ∈ fs, QuietFrame f

omit [FloatOps F] in
theorem Quiet.of_cons {f : AppFrame F} {fs : List (AppFrame F)} (h : Quiet (f :: fs)) :
    QuietFrame f ∧ Quiet fs :=
  ⟨h f List.mem_cons_self, fun g hg => h g (List.mem_cons_of_mem _ hg)⟩

omit [FloatOps F] in
theorem Quiet.cons {f : AppFrame F} {fs : List (AppFrame F)} (hf : QuietFrame f) (h : Quiet fs) :
    Quiet (f :: fs) := fun _ hg => (List.mem_cons.1 hg).elim (· ▸ hf) (h _)

omit [FloatOps F] in
theorem Quiet.append {fs fs' : List (AppFrame F)} (h : Quiet fs) (h' : Quiet fs') :
    Quiet (fs ++ fs') := fun _ hg => (List.mem_append.1 hg).elim (h _) (h' _)

/-- How far the announcement of the motor's last change has got: the motor is free, or the thread
    inside it still has to publish the status, or to give it to some services. -/
inductive Phase where
  | free
  | unpublished (t : Thread)
  | delivering (t : Thread) (hs : List Service)

/-- The thread inside `MotorService`. -/
def Phase.owner : Phase → Option Thread
  | .free => none
  | .unpublished t => some t
  | .delivering t _ => some t

/-- The announcement has not reached the service yet. -/
def Phase.Owes : Phase → Service → Prop
  | .free, _ => False
  | .unpublished _, _ => True
  | .delivering _ hs, h => h ∈ hs

/-- The frames of the announcement. -/
def Announces : Phase → MotorStatusPayload → List (AppFrame F) → Prop
  | .free, _, _ => False
  | .unpublished _, ms, fs => fs = [.publish (.motorStatus ms)]
  | .delivering _ hs, ms, fs =>
      fs = hs.map (fun h => .call h (.motorStatus ms)) ∨
        fs = .resume .done none :: hs.map fun h => .call h (.motorStatus ms)

/-- Thread `t` is inside `MotorService` and announces its present state. -/
structure Busy (c : AppConfig F) (ph : Phase) (t : Thread) (fs post : List (AppFrame F)) :
    Prop where
  owner : ph.owner = some t
  stack : c.stack t = fs ++ .resume .done (some .motor) :: post
  announces : Announces ph c.world.motor.status fs
  below : Quiet post
  others : ∀ t', t' ≠ t → Quiet (c.stack t')

/-- The configuration is in the given phase. -/
def InPhase (c : AppConfig F) (ph : Phase) : Prop :=
  (ph = .free ∧ ∀ t, Quiet (c.stack t)) ∨ ∃ t fs post, Busy c ph t fs post

/-! ## The pending tick -/

/-- The tick of a frame that `MotorService` has not handled yet. -/
def tickOf : AppFrame F → Option PhysicsTickPayload
  | .publish (.physicsTick tick) => some tick
  | .call .motor (.physicsTick tick) => some tick
  | _ => none

/-- The ticks snapshotted and not handled by `MotorService` yet. -/
def pendingTicks (c : AppConfig F) : List PhysicsTickPayload :=
  c.world.clockTick.toList ++ (c.stack .clock).filterMap tickOf

/-- There is at most one, and it is the clock's. -/
structure OneTick (c : AppConfig F) : Prop where
  atMostOne : (pendingTicks c).length ≤ 1
  others : ∀ t, t ≠ .clock → (c.stack t).filterMap tickOf = []

/-! ## Changes -/

/-- The motor, the lifecycle and the tick are as before; at most another message was published. -/
structure Unrelated (c c' : AppConfig F) : Prop where
  motor : c'.world.motor = c.world.motor
  state : c'.world.state = c.world.state
  history : c'.world.history = c.world.history ∨
    ∃ m, m.id ≠ .motorStatus ∧ c'.world.history = .published m :: c.world.history
  ticks : pendingTicks c' = pendingTicks c

/-- What one step can do, given the phases before and after it. -/
inductive Change (pf : Platform F) (c : AppConfig F) :
    Thread × Option (AppFrame F) → Phase → AppConfig F → Phase → Prop
  | elsewhere {a : Thread × Option (AppFrame F)} {ph : Phase} {c' : AppConfig F}
      (h : Unrelated c c') (hkin : c'.world.kinematics = c.world.kinematics) :
      Change pf c a ph c' ph
  | snapshot {ph : Phase} {c' : AppConfig F} (hnone : c.world.clockTick = none)
      (hmotor : c'.world.motor = c.world.motor) (hstate : c'.world.state = c.world.state)
      (hkin : c'.world.kinematics = c.world.kinematics)
      (hhist : c'.world.history = .snapshot (c.world.state.snapshot pf.kTickUs) :: c.world.history)
      (hticks : pendingTicks c' = [c.world.state.snapshot pf.kTickUs]) :
      Change pf c (.clock, none) ph c' ph
  | moved {t : Thread} {tick : PhysicsTickPayload} {ph : Phase} {c' : AppConfig F}
      (h : Unrelated c c') (hkin : c'.world.kinematics = c.world.kinematics.onPhysicsTick tick) :
      Change pf c (t, some (.call .kinematics (.physicsTick tick))) ph c' ph
  | sequence {t : Thread} {cmd : MotorSequencePayload} {c' : AppConfig F}
      (hw : c'.world = { c.world with motor := (c.world.motor.onMotorSequence cmd).1 })
      (hticks : pendingTicks c' = pendingTicks c) :
      Change pf c (t, some (.call .motor (.motorSequence cmd))) .free c' (.unpublished t)
  | tick {t : Thread} {tick : PhysicsTickPayload} {c' : AppConfig F}
      (hw : c'.world = { c.world with motor := (c.world.motor.onPhysicsTick tick).1 })
      (hbefore : pendingTicks c = [tick]) (hafter : pendingTicks c' = []) :
      Change pf c (t, some (.call .motor (.physicsTick tick))) .free c'
        (if (c.world.motor.onPhysicsTick tick).2.isSome then .unpublished t else .delivering t [])
  | announce {t : Thread} {a : Thread × Option (AppFrame F)} {c' : AppConfig F}
      (hw : c'.world = { c.world with
        history := .published (.motorStatus c.world.motor.status) :: c.world.history })
      (hticks : pendingTicks c' = pendingTicks c) :
      Change pf c a (.unpublished t) c'
        (.delivering t ((bus pf).subscribers (.motorStatus c.world.motor.status)))
  | deliver {t : Thread} {h : Service} {hs : List Service} {c' : AppConfig F}
      (hmotor : c'.world.motor = c.world.motor)
      (hstate : c'.world.state = if h = .state then c.world.state.onMotorStatus c.world.motor.status
        else c.world.state)
      (hkin : c'.world.kinematics = if h = .kinematics then
        c.world.kinematics.onMotorStatus c.world.motor.status else c.world.kinematics)
      (hhist : c'.world.history = c.world.history)
      (hticks : pendingTicks c' = pendingTicks c) :
      Change pf c (t, some (.call h (.motorStatus c.world.motor.status))) (.delivering t (h :: hs))
        c' (.delivering t hs)
  | leave {t : Thread} {a : Thread × Option (AppFrame F)} {c' : AppConfig F}
      (hw : c'.world = c.world)
      (hticks : pendingTicks c' = pendingTicks c) : Change pf c a (.delivering t []) c' .free

/-! ## Steps outside MotorService -/

/-- Exactly one subscriber of a tick is `MotorService`. -/
theorem tickOf_calls (pf : Platform F) (tick : PhysicsTickPayload) :
    (((bus pf).subscribers (.physicsTick tick)).map
      fun h => (.call h (.physicsTick tick) : AppFrame F)).filterMap tickOf = [tick] := by
  have hperm := ((subscribers_perm pf (.physicsTick tick)).map
    fun h => (.call h (.physicsTick tick) : AppFrame F)).filterMap tickOf
  exact List.perm_singleton.1 hperm

omit [FloatOps F] in
/-- Frames about anything but ticks hold no tick. -/
theorem tickOf_publishes {ms : List (Msg F)} (h : ∀ m ∈ ms, m.id ≠ .physicsTick) :
    (ms.map fun m => (.publish m : AppFrame F)).filterMap tickOf = [] := by
  rw [List.filterMap_eq_nil_iff]
  intro f hf
  obtain ⟨m, hm, rfl⟩ := List.mem_map.1 hf
  have := h m hm
  cases m <;> first | rfl | exact absurd rfl this

omit [FloatOps F] in
theorem tickOf_calls_other {m : Msg F} (h : m.id ≠ .physicsTick) (hs : List Service) :
    (hs.map fun h => (.call h m : AppFrame F)).filterMap tickOf = [] := by
  rw [List.filterMap_eq_nil_iff]
  intro f hf
  obtain ⟨h', -, rfl⟩ := List.mem_map.1 hf
  cases m <;> first | exact absurd rfl h | (cases h' <;> rfl)

/-- What a thread outside `MotorService` can do by firing `f`: a new world and a new stack. -/
structure QuietStep (c : AppConfig F) (t : Thread) (f : AppFrame F) (w : World F)
    (fs : List (AppFrame F)) : Prop where
  quiet : Quiet fs
  ticks : fs.filterMap tickOf = (c.stack t).filterMap tickOf
  clockTick : w.clockTick = c.world.clockTick
  motor : w.motor = c.world.motor
  state : w.state = c.world.state
  history : w.history = c.world.history ∨
    ∃ m, m.id ≠ .motorStatus ∧ w.history = .published m :: c.world.history
  kinematics : w.kinematics = c.world.kinematics ∨
    ∃ tick, f = .call .kinematics (.physicsTick tick) ∧
      w.kinematics = c.world.kinematics.onPhysicsTick tick

section QuietStep

variable {pf : Platform F} {c c' : AppConfig F} {t : Thread} {f : AppFrame F}
  {rest : List (AppFrame F)}

omit [FloatOps F] in
theorem filterMap_tickOf_top (hstack : c.stack t = f :: rest) (hf : tickOf f = none) :
    rest.filterMap tickOf = (c.stack t).filterMap tickOf := by
  rw [hstack, List.filterMap_cons_none hf]

/-- Dropping a frame. -/
theorem quietStep_pop (hstack : c.stack t = f :: rest) (hf : tickOf f = none) (hrest : Quiet rest) :
    QuietStep c t f c.world rest :=
  ⟨hrest, filterMap_tickOf_top hstack hf, rfl, rfl, rfl, Or.inl rfl, Or.inl rfl⟩

/-- Running inert code. -/
theorem quietStep_run {code : Code (World F) (Msg F)} {lock : Option Mutex}
    (hstack : c.stack t = f :: rest) (hf : tickOf f = none) (hcode : Inert code)
    (hlock : lock ≠ some .motor) (hrest : Quiet rest) :
    ∃ w fs, c.run t rest code lock = c.put t w fs ∧ QuietStep c t f w fs := by
  cases code with
  | done => exact ⟨_, _, rfl, quietStep_pop hstack hf hrest⟩
  | step run next =>
      have hsame := hcode.grows.1 c.world
      have hemits := hcode.emits.1 c.world
      have hnext : Inert (next c.world) := ⟨hcode.emits.2 c.world, hcode.grows.2 c.world⟩
      refine ⟨_, _, rfl, ?_, ?_, hsame.clockTick, hsame.motor, hsame.state, Or.inl hsame.history,
        Or.inl hsame.kinematics⟩
      · refine Quiet.append (fun g hg => ?_) (Quiet.cons ⟨hlock, hnext⟩ hrest)
        obtain ⟨m, hm, rfl⟩ := List.mem_map.1 hg
        exact (hemits m hm).1
      · rw [← filterMap_tickOf_top hstack hf, List.filterMap_append,
          tickOf_publishes fun m hm => (hemits m hm).2]
        rfl

/-- **Inversion for threads outside MotorService.** -/
theorem quiet_fire (hstack : c.stack t = f :: rest) (hf : QuietFrame f) (hrest : Quiet rest)
    (hmotor : ∀ m, f ≠ .call .motor m) (hfire : (machine pf).fire t f rest c = some c') :
    ∃ w fs, c' = c.put t w fs ∧ QuietStep c t f w fs := by
  cases f with
  | publish m =>
      obtain rfl := Option.some.inj hfire
      refine ⟨_, _, rfl, ?_, ?_, rfl, rfl, rfl, Or.inr ⟨m, hf, rfl⟩, Or.inl rfl⟩
      · refine Quiet.append (fun g hg => ?_) hrest
        obtain ⟨h, -, rfl⟩ := List.mem_map.1 hg
        exact hf
      · rw [hstack, List.filterMap_append]
        by_cases hid : m.id = .physicsTick
        · cases m <;> simp only [Msg.id, reduceCtorEq] at hid
          next tick => exact congrArg (· ++ _) (tickOf_calls pf tick)
        · rw [show List.filterMap tickOf _ = [] from tickOf_calls_other hid _]
          cases m <;> first | rfl | exact absurd rfl hid
  | resume code lock =>
      obtain rfl := Option.some.inj hfire
      exact quietStep_run hstack rfl hf.2 hf.1 hrest
  | call h m =>
      have hne : h ≠ .motor := fun he => hmotor m (he ▸ rfl)
      have hlock : h.mutex ≠ some .motor := by cases h <;> first | exact absurd rfl hne | decide
      have htick : tickOf (.call h m : AppFrame F) = none := by
        cases h <;> first | exact absurd rfl hne | rfl
      simp only [Machine.fire, Option.ite_none_right_eq_some] at hfire
      obtain ⟨-, heq⟩ := hfire
      obtain rfl := Option.some.inj heq
      by_cases htouch : touchesCore h m.id = true
      · -- Only a tick for `KinematicsService` touches the core here: the rest are statuses.
        obtain ⟨tick, rfl, rfl⟩ : ∃ tick, h = .kinematics ∧ m = .physicsTick tick := by
          have hid : m.id ≠ .motorStatus := hf
          cases h <;> cases m <;> simp_all [touchesCore, Msg.id]
        have hticks := filterMap_tickOf_top hstack htick
        exact ⟨_, .resume .done none :: rest, rfl, Quiet.cons ⟨by decide, inert_done⟩ hrest,
          hticks, rfl, rfl, rfl, Or.inl rfl, Or.inr ⟨tick, rfl, rfl⟩⟩
      · exact quietStep_run hstack htick (code_inert pf (Bool.eq_false_iff.2 htouch)) hlock hrest

end QuietStep

/-! ## Keeping the phase and the tick -/

section Keeping

variable {pf : Platform F} {c : AppConfig F} {t : Thread} {ph : Phase} {w : World F}
  {fs : List (AppFrame F)}

omit [FloatOps F] in
/-- A thread inside `MotorService` is not quiet. -/
theorem Busy.not_quiet {fs post : List (AppFrame F)} (h : Busy c ph t fs post) :
    ¬ Quiet (c.stack t) := by
  intro hq
  have hmem : Frame.resume .done (some .motor) ∈ c.stack t := by
    rw [h.stack]
    exact List.mem_append_right _ List.mem_cons_self
  exact (hq _ hmem).1 rfl

omit [FloatOps F] in
theorem Busy.holds {fs post : List (AppFrame F)} (h : Busy c ph t fs post) : c.holds t .motor :=
  Config.holds_of_mem (h.stack ▸ List.mem_append_right _ List.mem_cons_self)

omit [FloatOps F] in
theorem quiet_put (hq : ∀ t', t' ≠ t → Quiet (c.stack t')) (hfs : Quiet fs) (t' : Thread) :
    Quiet ((c.put t w fs).stack t') := by
  by_cases he : t' = t
  · rw [he, Config.put_self]
    exact hfs
  · rw [Config.put_other _ he]
    exact hq t' he

omit [FloatOps F] in
/-- A step of a quiet thread that leaves it quiet and the motor alone keeps the phase. -/
theorem InPhase.put (hph : InPhase c ph) (hmotor : w.motor = c.world.motor)
    (hbefore : Quiet (c.stack t)) (hafter : Quiet fs) : InPhase (c.put t w fs) ph := by
  rcases hph with ⟨rfl, hq⟩ | ⟨t₀, gs, post, hb⟩
  · exact Or.inl ⟨rfl, quiet_put (fun t' _ => hq t') hafter⟩
  · have hne : t₀ ≠ t := fun he => hb.not_quiet (he ▸ hbefore)
    refine Or.inr ⟨t₀, gs, post, hb.owner, ?_, ?_, hb.below, fun t' ht' => ?_⟩
    · rw [Config.put_other _ hne]
      exact hb.stack
    · rw [Config.put_world, hmotor]
      exact hb.announces
    · by_cases he : t' = t
      · rw [he, Config.put_self]
        exact hafter
      · rw [Config.put_other _ he]
        exact hb.others t' ht'

omit [FloatOps F] in
/-- A step that keeps the tick frames of its thread keeps the pending tick. -/
theorem pendingTicks_put (hclock : w.clockTick = c.world.clockTick)
    (hticks : fs.filterMap tickOf = (c.stack t).filterMap tickOf) :
    pendingTicks (c.put t w fs) = pendingTicks c := by
  unfold pendingTicks
  rw [Config.put_world, hclock]
  by_cases ht : t = .clock
  · rw [← ht, Config.put_self, hticks]
  · rw [Config.put_other _ (Ne.symm ht)]

omit [FloatOps F] in
theorem OneTick.put (h : OneTick c) (hclock : w.clockTick = c.world.clockTick)
    (hticks : fs.filterMap tickOf = (c.stack t).filterMap tickOf) : OneTick (c.put t w fs) := by
  refine ⟨pendingTicks_put hclock hticks ▸ h.atMostOne, fun t' ht' => ?_⟩
  by_cases he : t' = t
  · rw [he, Config.put_self, hticks, ← he]
    exact h.others t' ht'
  · rw [Config.put_other _ he]
    exact h.others t' ht'

theorem QuietStep.change {f : AppFrame F} (h : QuietStep c t f w fs) :
    Change pf c (t, some f) ph (c.put t w fs) ph := by
  have hun : Unrelated c (c.put t w fs) :=
    ⟨h.motor, h.state, h.history, pendingTicks_put h.clockTick h.ticks⟩
  rcases h.kinematics with hkin | ⟨tick, rfl, hkin⟩
  · exact Change.elsewhere hun hkin
  · exact Change.moved hun hkin

/-- What a quiet thread does keeps the phase and the tick. -/
theorem QuietStep.keeps {f : AppFrame F} (h : QuietStep c t f w fs) (hq : Quiet (c.stack t))
    (hph : InPhase c ph) (htick : OneTick c) :
    ∃ ph', InPhase (c.put t w fs) ph' ∧ OneTick (c.put t w fs) ∧
      Change pf c (t, some f) ph (c.put t w fs) ph' :=
  ⟨ph, hph.put h.motor hq h.quiet, htick.put h.clockTick h.ticks, h.change⟩

end Keeping

/-! ## Steps of MotorService -/

section Motor

variable {pf : Platform F} {c c' : AppConfig F} {t : Thread}

omit [FloatOps F] in
/-- The thread that fires a tick for `MotorService` is the clock, and no other tick is pending. -/
theorem OneTick.firing (h : OneTick c) {tick : PhysicsTickPayload} {rest : List (AppFrame F)}
    (hstack : c.stack t = .call .motor (.physicsTick tick) :: rest) :
    t = .clock ∧ c.world.clockTick = none ∧ pendingTicks c = [tick] ∧
      rest.filterMap tickOf = [] := by
  have htop : (c.stack t).filterMap tickOf = tick :: rest.filterMap tickOf := by
    rw [hstack]
    rfl
  have ht : t = .clock := by
    by_contra hne
    rw [h.others t hne] at htop
    simp at htop
  subst ht
  have hlen := h.atMostOne
  unfold pendingTicks at hlen ⊢
  rw [htop, List.length_append, List.length_cons] at hlen
  have hclock : c.world.clockTick = none := by
    cases hc : c.world.clockTick with
    | none => rfl
    | some _ =>
        rw [hc] at hlen
        simp at hlen
  have hrest : rest.filterMap tickOf = [] := List.length_eq_zero_iff.1 (by omega)
  exact ⟨rfl, hclock, by rw [htop, hclock, hrest]; rfl, hrest⟩

theorem run_motorSequence (pf : Platform F) (c : AppConfig F) (t : Thread)
    (rest : List (AppFrame F)) (cmd : MotorSequencePayload) :
    c.run t rest (code pf .motor (.motorSequence cmd)) (some .motor) =
      c.put t { c.world with motor := (c.world.motor.onMotorSequence cmd).1 }
        ([.publish (.motorStatus (c.world.motor.onMotorSequence cmd).1.status)] ++
          .resume .done (some .motor) :: rest) := by
  rw [← MotorService.onMotorSequence_status]
  rfl

theorem run_motorTick (pf : Platform F) (c : AppConfig F) (t : Thread) (rest : List (AppFrame F))
    (tick : PhysicsTickPayload) :
    c.run t rest (code pf .motor (.physicsTick tick)) (some .motor) =
      c.put t { c.world with motor := (c.world.motor.onPhysicsTick tick).1 }
        ((if (c.world.motor.onPhysicsTick tick).2.isSome then
            [.publish (.motorStatus (c.world.motor.onPhysicsTick tick).1.status)] else []) ++
          .resume .done (some .motor) :: rest) := by
  cases hms : (c.world.motor.onPhysicsTick tick).2 with
  | none => simp [Config.run, code, Code.single, hms]
  | some ms =>
      obtain rfl := MotorService.onPhysicsTick_status hms
      simp [Config.run, code, Code.single, hms]

/-- **Inversion for entering MotorService.** -/
theorem motor_fire (hquiet : ∀ t, Quiet (c.stack t)) (htick : OneTick c) {m : Msg F}
    {rest : List (AppFrame F)} (hstack : c.stack t = .call .motor m :: rest)
    (hfire : (machine pf).fire t (.call .motor m) rest c = some c') :
    ∃ ph', InPhase c' ph' ∧ OneTick c' ∧ Change pf c (t, some (.call .motor m)) .free c' ph' := by
  have htop : Quiet (.call .motor m :: rest) := hstack ▸ hquiet t
  have hm : m.id ≠ .motorStatus := htop.of_cons.1
  have hrest : Quiet rest := htop.of_cons.2
  simp only [Machine.fire, Option.ite_none_right_eq_some] at hfire
  obtain ⟨-, heq⟩ := hfire
  replace heq : c.run t rest (code pf .motor m) (some .motor) = c' := Option.some.inj heq
  cases m with
  | motorSequence cmd =>
      rw [run_motorSequence] at heq
      subst heq
      have hticks : ([.publish (.motorStatus (c.world.motor.onMotorSequence cmd).1.status)] ++
          .resume .done (some .motor) :: rest : List (AppFrame F)).filterMap tickOf =
          (c.stack t).filterMap tickOf := by
        rw [hstack]
        rfl
      refine ⟨.unpublished t,
        Or.inr ⟨t, _, rest, rfl, Config.put_self .., rfl, hrest, fun t' ht' => ?_⟩,
        htick.put rfl hticks, Change.sequence rfl (pendingTicks_put rfl hticks)⟩
      exact (Config.put_other _ ht' _ _).symm ▸ hquiet t'
  | physicsTick tick =>
      obtain ⟨rfl, hclock, hpending, hnone⟩ := htick.firing hstack
      rw [run_motorTick] at heq
      subst heq
      have hticks : ((if (c.world.motor.onPhysicsTick tick).2.isSome then
          [.publish (.motorStatus (c.world.motor.onPhysicsTick tick).1.status)] else []) ++
          .resume .done (some .motor) :: rest : List (AppFrame F)).filterMap tickOf = [] := by
        split <;> exact hnone
      have hpending' : pendingTicks (c.put .clock
          { c.world with motor := (c.world.motor.onPhysicsTick tick).1 }
          ((if (c.world.motor.onPhysicsTick tick).2.isSome then
            [.publish (.motorStatus (c.world.motor.onPhysicsTick tick).1.status)] else []) ++
          .resume .done (some .motor) :: rest)) = [] := by
        unfold pendingTicks
        rw [Config.put_self, hticks, Config.put_world]
        exact congrArg (·.toList ++ []) hclock
      refine ⟨_, Or.inr ⟨.clock, _, rest, ?_, Config.put_self .., ?_, hrest, fun t' ht' => ?_⟩,
        ⟨?_, fun t' ht' => ?_⟩, Change.tick rfl hpending hpending'⟩
      · split <;> rfl
      · split
        · rfl
        · exact Or.inl rfl
      · exact (Config.put_other _ ht' _ _).symm ▸ hquiet t'
      · exact (congrArg List.length hpending').trans_le (Nat.zero_le 1)
      · exact (Config.put_other _ ht' _ _).symm ▸ htick.others t' ht'
  | motorStatus ms => exact absurd rfl hm
  | _ => exact heq ▸ (quietStep_pop hstack rfl hrest).keeps (hquiet t) (Or.inl ⟨rfl, hquiet⟩) htick

/-- Giving a status to a service. -/
theorem deliver_run (pf : Platform F) (c : AppConfig F) (t : Thread) (rest : List (AppFrame F))
    (h : Service) (ms : MotorStatusPayload) :
    ∃ w gs, c.run t rest (code pf h (.motorStatus ms)) h.mutex = c.put t w gs ∧
      (gs = rest ∨ gs = .resume .done none :: rest) ∧ w.motor = c.world.motor ∧
      (w.state = if h = .state then c.world.state.onMotorStatus ms else c.world.state) ∧
      (w.kinematics = if h = .kinematics then c.world.kinematics.onMotorStatus ms
        else c.world.kinematics) ∧
      w.clockTick = c.world.clockTick ∧ w.history = c.world.history := by
  cases h
  case kinematics => exact ⟨_, _, rfl, Or.inr rfl, rfl, rfl, rfl, rfl, rfl⟩
  case power => exact ⟨_, _, rfl, Or.inr rfl, rfl, rfl, rfl, rfl, rfl⟩
  case state => exact ⟨_, _, rfl, Or.inr rfl, rfl, rfl, rfl, rfl, rfl⟩
  all_goals exact ⟨_, _, rfl, Or.inl rfl, rfl, rfl, rfl, rfl, rfl⟩

/-- **Inversion for announcing.** -/
theorem busy_fire {ph : Phase} {fs post : List (AppFrame F)} (hb : Busy c ph t fs post)
    (htick : OneTick c) {f : AppFrame F} {rest : List (AppFrame F)} (hstack : c.stack t = f :: rest)
    (hfire : (machine pf).fire t f rest c = some c') :
    ∃ ph', InPhase c' ph' ∧ OneTick c' ∧ Change pf c (t, some f) ph c' ph' := by
  have htop : f :: rest = fs ++ .resume .done (some .motor) :: post := hstack ▸ hb.stack
  have hann := hb.announces
  cases ph with
  | free => exact hann.elim
  | unpublished t₀ =>
      obtain rfl := Option.some.inj hb.owner
      obtain rfl : fs = _ := hann
      obtain ⟨rfl, rfl⟩ := List.cons.inj htop
      obtain rfl := Option.some.inj hfire
      have hticks : (((bus pf).subscribers (.motorStatus c.world.motor.status)).map
          (Frame.call · (.motorStatus c.world.motor.status)) ++
            .resume .done (some .motor) :: post : List (AppFrame F)).filterMap tickOf =
          (c.stack t₀).filterMap tickOf := by
        rw [hstack, List.filterMap_append, tickOf_calls_other MsgId.noConfusion]
        rfl
      refine ⟨.delivering t₀ ((bus pf).subscribers (.motorStatus c.world.motor.status)),
        Or.inr ⟨t₀, _, post, rfl, Config.put_self .., Or.inl rfl, hb.below, fun t' ht' => ?_⟩,
        htick.put rfl hticks, Change.announce rfl (pendingTicks_put rfl hticks)⟩
      exact (Config.put_other _ ht' _ _).symm ▸ hb.others t' ht'
  | delivering t₀ hs =>
      obtain rfl := Option.some.inj hb.owner
      rcases hann with rfl | rfl
      · cases hs with
        | nil =>
            obtain ⟨rfl, rfl⟩ := List.cons.inj htop
            obtain rfl := Option.some.inj hfire
            have hticks := filterMap_tickOf_top hstack rfl
            exact ⟨.free, Or.inl ⟨rfl, quiet_put hb.others hb.below⟩, htick.put rfl hticks,
              Change.leave rfl (pendingTicks_put rfl hticks)⟩
        | cons h hs =>
            obtain ⟨rfl, rfl⟩ := List.cons.inj htop
            simp only [Machine.fire, Option.ite_none_right_eq_some] at hfire
            obtain ⟨-, heq⟩ := hfire
            obtain rfl := Option.some.inj heq
            obtain ⟨w, gs, hrun, hgs, hmotor, hstate, hkin, hclock, hhist⟩ := deliver_run pf c t₀
              (hs.map (Frame.call · (.motorStatus c.world.motor.status)) ++
                .resume .done (some .motor) :: post) h c.world.motor.status
            have hticks : gs.filterMap tickOf = (c.stack t₀).filterMap tickOf := by
              rw [hstack]
              rcases hgs with rfl | rfl <;> cases h <;> rfl
            have hbusy : InPhase (c.put t₀ w gs) (.delivering t₀ hs) := by
              refine Or.inr ⟨t₀, ?_⟩
              have hothers : ∀ t', t' ≠ t₀ → Quiet ((c.put t₀ w gs).stack t') :=
                fun t' ht' => (Config.put_other _ ht' _ _).symm ▸ hb.others t' ht'
              rcases hgs with rfl | rfl
              · exact ⟨_, post, rfl, Config.put_self .., Or.inl (by rw [Config.put_world, hmotor]),
                  hb.below, hothers⟩
              · exact ⟨.resume .done none :: _, post, rfl, Config.put_self ..,
                  Or.inr (by rw [Config.put_world, hmotor]), hb.below, hothers⟩
            refine ⟨.delivering t₀ hs, ?_, ?_, ?_⟩
            · exact hrun ▸ hbusy
            · exact hrun ▸ htick.put hclock hticks
            · exact hrun ▸ Change.deliver hmotor hstate hkin hhist (pendingTicks_put hclock hticks)
      · -- The frame left over from the last delivery.
        obtain ⟨rfl, rfl⟩ := List.cons.inj htop
        obtain rfl := Option.some.inj hfire
        have hticks := filterMap_tickOf_top hstack rfl
        refine ⟨.delivering t₀ hs,
          Or.inr ⟨t₀, _, post, rfl, Config.put_self .., Or.inl rfl, hb.below, fun t' ht' => ?_⟩,
          htick.put rfl hticks,
          Change.elsewhere ⟨rfl, rfl, Or.inl rfl, pendingTicks_put rfl hticks⟩ rfl⟩
        exact (Config.put_other _ ht' _ _).symm ▸ hb.others t' ht'

end Motor

/-! ## All steps -/

section Steps

variable {pf : Platform F} {c c' : AppConfig F} {ph : Phase}

/-- What a thread may start is quiet. -/
theorem start_change (hph : InPhase c ph) (htick : OneTick c) {t : Thread} {w : World F}
    {ms : List (Msg F)} (hidle : c.stack t = []) (hstart : Start pf t c.world w ms) :
    ∃ ph', InPhase (c.put t w (ms.map Frame.publish)) ph' ∧
      OneTick (c.put t w (ms.map Frame.publish)) ∧
      Change pf c (t, none) ph (c.put t w (ms.map Frame.publish)) ph' := by
  have hbefore : Quiet (c.stack t) := by
    rw [hidle]
    exact fun _ h => absurd h List.not_mem_nil
  have hnil : Quiet ([] : List (AppFrame F)) := fun _ h => absurd h List.not_mem_nil
  cases hstart with
  | snapshot hnone =>
      have hticks : pendingTicks (c.put .clock { (takeSnapshot pf c.world).1 with
          clockTick := some (takeSnapshot pf c.world).2 } []) =
          [c.world.state.snapshot pf.kTickUs] := by
        simp [pendingTicks, takeSnapshot]
      refine ⟨ph, hph.put rfl hbefore hnil, ⟨?_, fun t' ht' => ?_⟩,
        Change.snapshot hnone rfl rfl rfl rfl hticks⟩
      · exact (congrArg List.length hticks).le
      · exact (Config.put_other _ ht' _ _).symm ▸ htick.others t' ht'
  | @tick _ tick hsome =>
      have hticks : pendingTicks (c.put .clock { c.world with clockTick := none }
          [.publish (.physicsTick tick)]) = pendingTicks c := by
        simp [pendingTicks, hidle, hsome, tickOf]
      refine ⟨ph, hph.put rfl hbefore (Quiet.cons MsgId.noConfusion hnil), ⟨?_, fun t' ht' => ?_⟩,
        Change.elsewhere ⟨rfl, rfl, Or.inl rfl, hticks⟩ rfl⟩
      · exact (congrArg List.length hticks).trans_le htick.atMostOne
      · exact (Config.put_other _ ht' _ _).symm ▸ htick.others t' ht'
  | @datagram _ m hauth =>
      have hids : m.id ≠ .motorStatus ∧ m.id ≠ .physicsTick := by
        have hmem := of_decide_eq_true hauth
        constructor <;> intro he <;> rw [he] at hmem <;> exact absurd hmem (by decide)
      have hticks : ([.publish m] : List (AppFrame F)).filterMap tickOf =
          (c.stack .bridge).filterMap tickOf := by
        have hone : ∀ m' ∈ [m], m'.id ≠ .physicsTick :=
          fun m' hm' => List.mem_singleton.1 hm' ▸ hids.2
        rw [hidle]
        exact tickOf_publishes hone
      exact ⟨ph, hph.put rfl hbefore (Quiet.cons hids.1 hnil), htick.put rfl hticks,
        Change.elsewhere ⟨rfl, rfl, Or.inl rfl, pendingTicks_put rfl hticks⟩ rfl⟩
  | wait _ =>
      have hticks : ([] : List (AppFrame F)).filterMap tickOf =
          (c.stack .time).filterMap tickOf := by rw [hidle]
      exact ⟨ph, hph.put rfl hbefore hnil, htick.put rfl hticks,
        Change.elsewhere ⟨rfl, rfl, Or.inl rfl, pendingTicks_put rfl hticks⟩ rfl⟩

/-- **Inversion lemma.** From a phase with at most one tick pending, every step is one of the listed
    changes and leads to such a phase again. -/
theorem step_change (hph : InPhase c ph) (htick : OneTick c) {a : Thread × Option (AppFrame F)}
    (hstep : (machine pf).Step c a c') :
    ∃ ph', InPhase c' ph' ∧ OneTick c' ∧ Change pf c a ph c' ph' := by
  cases hstep with
  | start hidle hstart => exact start_change hph htick hidle hstart
  | @fire _ t f rest hstack hfire =>
      have hquietStep : Quiet (c.stack t) → (∀ m, f ≠ .call .motor m) →
          ∃ ph', InPhase c' ph' ∧ OneTick c' ∧ Change pf c (t, some f) ph c' ph' := by
        intro hq hmotor
        have htop : Quiet (f :: rest) := hstack ▸ hq
        obtain ⟨w, fs, rfl, hstep⟩ := quiet_fire hstack htop.of_cons.1 htop.of_cons.2 hmotor hfire
        exact hstep.keeps hq hph htick
      by_cases hmotor : ∃ m, f = .call .motor m
      · obtain ⟨m, rfl⟩ := hmotor
        rcases hph with ⟨rfl, hq⟩ | ⟨t₀, fs, post, hb⟩
        · exact motor_fire hq htick hstack hfire
        · -- The mutex is taken, so the call does not fire.
          simp only [Machine.fire, Option.ite_none_right_eq_some] at hfire
          obtain ⟨hothers, hself⟩ := hfire.1
          by_cases he : t₀ = t
          · exact absurd (he ▸ hb.holds) (hself.resolve_left Bool.false_ne_true)
          · exact absurd hb.holds (hothers t₀ he)
      · have hne : ∀ m, f ≠ .call .motor m := fun m he => hmotor ⟨m, he⟩
        rcases id hph with ⟨rfl, hq⟩ | ⟨t₀, fs, post, hb⟩
        · exact hquietStep (hq t) hne
        · by_cases he : t₀ = t
          · exact busy_fire (he ▸ hb) htick hstack hfire
          · exact hquietStep (hb.others t (Ne.symm he)) hne

/-! ## Statuses on their way -/

omit [FloatOps F] in
theorem statusFor_quiet {h : Service} {fs : List (AppFrame F)} (hq : Quiet fs) :
    fs.filterMap (statusFor h) = [] := by
  rw [List.filterMap_eq_nil_iff]
  intro f hf
  have hquiet := hq f hf
  cases f with
  | publish m => cases m <;> first | rfl | exact absurd rfl hquiet
  | call h' m => cases m <;> first | rfl | exact absurd rfl hquiet
  | resume code lock => rfl

omit [FloatOps F] in
theorem statusFor_calls (h : Service) (hs : List Service) (ms ms' : MotorStatusPayload) :
    ms' ∈ (hs.map fun h' => (.call h' (.motorStatus ms) : AppFrame F)).filterMap (statusFor h) ↔
      h ∈ hs ∧ ms' = ms := by
  simp only [List.filterMap_map, List.mem_filterMap, Function.comp_apply, statusFor,
    Option.ite_none_right_eq_some, Option.some.injEq]
  constructor
  · rintro ⟨h', hmem, rfl, rfl⟩
    exact ⟨hmem, rfl⟩
  · rintro ⟨hmem, rfl⟩
    exact ⟨h, hmem, rfl, rfl⟩

omit [FloatOps F] in
/-- The only status on its way is the motor's present one, to the services the phase lists. -/
theorem InPhase.onItsWay_iff (hph : InPhase c ph) {h : Service} {ms : MotorStatusPayload} :
    OnItsWay c h ms ↔ ph.Owes h ∧ ms = c.world.motor.status := by
  rcases hph with ⟨rfl, hq⟩ | ⟨t, fs, post, hb⟩
  · refine iff_of_false ?_ (fun h => h.1)
    rintro ⟨t, ht⟩
    rw [statusFor_quiet (hq t)] at ht
    exact absurd ht List.not_mem_nil
  · have htop : (c.stack t).filterMap (statusFor h) = fs.filterMap (statusFor h) := by
      rw [hb.stack, List.filterMap_append, List.filterMap_cons_none rfl, statusFor_quiet hb.below,
        List.append_nil]
    have hann : ms ∈ fs.filterMap (statusFor h) ↔ ph.Owes h ∧ ms = c.world.motor.status := by
      have hfs := hb.announces
      cases ph with
      | free => exact hfs.elim
      | unpublished _ =>
          obtain rfl : fs = _ := hfs
          simp [statusFor, Phase.Owes]
      | delivering _ hs =>
          rcases hfs with rfl | rfl
          · exact statusFor_calls h hs _ ms
          · rw [List.filterMap_cons_none rfl]
            exact statusFor_calls h hs _ ms
    constructor
    · rintro ⟨t', ht'⟩
      by_cases he : t' = t
      · rw [he, htop] at ht'
        exact hann.1 ht'
      · rw [statusFor_quiet (hb.others t' he)] at ht'
        exact absurd ht' List.not_mem_nil
    · exact fun hm => ⟨t, htop ▸ hann.2 hm⟩

/-! ## Runs -/

/-- Nothing is running at the start. -/
theorem start_inPhase : InPhase (start : AppConfig F) .free :=
  Or.inl ⟨rfl, fun _ _ h => absurd h List.not_mem_nil⟩

theorem start_oneTick : OneTick (start : AppConfig F) := ⟨Nat.zero_le 1, fun _ _ => rfl⟩

/-- **Run rule.** A fact about configurations and phases that holds at the start and is kept by
    every change holds in every configuration a run reaches. -/
theorem run_phase {P : AppConfig F → Thread × Option (AppFrame F) → Prop}
    {I : AppConfig F → Phase → Prop} (hstart : I start .free)
    (hchange : ∀ c a ph c' ph', I c ph → InPhase c ph → (machine pf).Run P start c → P c a →
      (machine pf).Step c a c' → Change pf c a ph c' ph' → I c' ph')
    {c : AppConfig F} (hrun : (machine pf).Run P start c) :
    ∃ ph, InPhase c ph ∧ OneTick c ∧ I c ph := by
  induction hrun with
  | refl => exact ⟨.free, start_inPhase, start_oneTick, hstart⟩
  | tail hbefore hlast ih =>
      obtain ⟨ph, hph, htick, hI⟩ := ih
      obtain ⟨a, hP, hstep⟩ := hlast
      obtain ⟨ph', hph', htick', hc⟩ := step_change hph htick hstep
      exact ⟨ph', hph', htick', hchange _ a ph _ ph' hI hph hbefore hP hstep hc⟩

/-- A service is called only with messages that were published. -/
theorem called_published {P : AppConfig F → Thread × Option (AppFrame F) → Prop}
    (hrun : (machine pf).Run P start c) {t : Thread} {h : Service} {m : Msg F}
    (hcall : .call h m ∈ c.stack t) : .published m ∈ c.world.history := by
  have hknown : (Frame.call h m : AppFrame F).Known (fun w w' => w.history <:+ w'.history)
      (fun m w => .published m ∈ w.history) c.world := by
    refine Machine.Run.known (bus_grows pf) ?_ ?_ ?_ hrun ?_ t _ hcall
    · exact fun _ _ _ hle hm => hle.subset hm
    · exact fun _ _ => List.mem_cons_self
    · intro t w w' ms hs
      cases hs with
      | snapshot _ => exact List.suffix_cons _ _
      | _ => exact List.suffix_rfl
    · exact fun _ _ hf => absurd hf List.not_mem_nil
  exact hknown

end Steps

end App

end ReflectPytest
