import ReflectPytest.Sequential.Queries
import ReflectPytest.Sequential.Schedule

set_option autoImplicit false

/-! # The elapsed time of a sequence

`elapsed_us_` is meant to count from the start of a sequence. `KinematicsService` takes a status for
the start of one when its id is new, but ids may come again, and the ticks tell it ids as well. So
the counter may start from what an earlier sequence, or an idle time, left in it, and it is 32 bits
wide. `run_elapsed_iff` says that these two are all that can go wrong. -/

namespace ReflectPytest

open SyncBus

variable {F : Type} [FloatOps F]

namespace KinematicsService

/-- An active status sets the id. -/
theorem onMotorStatus_cmdId (s : KinematicsService F) (ms : MotorStatusPayload) :
    (s.onMotorStatus ms).cmdId = if ms.isActive then ms.cmdId else s.cmdId := by
  unfold onMotorStatus
  cases ms.isActive with
  | false => simp
  | true =>
      by_cases hid : ms.cmdId = s.cmdId
      · simp [hid]
      · simp [hid]

/-- An active status with a new id resets the counter. -/
theorem onMotorStatus_elapsedUs (s : KinematicsService F) (ms : MotorStatusPayload) :
    (s.onMotorStatus ms).elapsedUs =
      if ms.isActive = true ∧ ms.cmdId ≠ s.cmdId then 0 else s.elapsedUs := by
  unfold onMotorStatus
  cases ms.isActive with
  | false => simp
  | true =>
      by_cases hid : ms.cmdId = s.cmdId
      · simp [hid]
      · simp [hid]

end KinematicsService

/-- The services between a motor command and the vehicle's motion. -/
structure DriveTrain (F : Type) where
  motor : MotorService
  state : StateService
  kinematics : KinematicsService F

namespace DriveTrain

inductive Input where
  | motorSequence (cmd : MotorSequencePayload)
  | physicsTick (dtUs : Nat)
  | kinematicsRequest

def init : DriveTrain F := ⟨.init, .init, .init⟩

/-- Both other services get a status. -/
def announce (s : DriveTrain F) (ms : MotorStatusPayload) : DriveTrain F :=
  { s with state := s.state.onMotorStatus ms, kinematics := s.kinematics.onMotorStatus ms }

/-- `on_message(PhysicsTickPayload)` of one service, with what it causes. -/
def onPhysicsTick (tick : PhysicsTickPayload) (s : DriveTrain F) : Service → DriveTrain F
  | .motor =>
      let (motor, ms) := s.motor.onPhysicsTick tick
      ms.toList.foldl announce { s with motor := motor }
  | .kinematics => { s with kinematics := s.kinematics.onPhysicsTick tick }
  | _ => s

/-- Handle one message to completion; a tick carries the id and the speed `StateService` knows. -/
def step (pf : Platform F) (s : DriveTrain F) : Input → DriveTrain F
  | .motorSequence cmd =>
      let (motor, ms) := s.motor.onMotorSequence cmd
      announce { s with motor := motor } ms
  | .physicsTick dtUs =>
      let tick := s.state.snapshot dtUs
      ((App.bus pf).subscribers (.physicsTick tick)).foldl (onPhysicsTick tick) s
  | .kinematicsRequest => s

/-- The time since the start of the current sequence, if that one has started: what the counter
    held when it did, and the length of the ticks since. -/
structure Timer where
  leftUs : Nat
  sinceUs : Nat
  deriving DecidableEq

/-- Keep the time of the current sequence. -/
def watch (s : DriveTrain F) (timer : Option Timer) : Input → Option Timer
  | .motorSequence cmd =>
      if MotorService.startsImmediately (MotorService.accept cmd) then
        some ⟨if cmd.cmdId = s.kinematics.cmdId then s.kinematics.elapsedUs else 0, 0⟩
      else none
  | .physicsTick dtUs => timer.map fun t => { t with sinceUs := t.sinceUs + dtUs }
  | .kinematicsRequest => timer

/-- Handle a history of messages, and keep the time. -/
def run (pf : Platform F) (history : List Input) : DriveTrain F × Option Timer :=
  history.foldl (fun x i => (x.1.step pf i, x.1.watch x.2 i)) (init, none)

theorem run_concat (pf : Platform F) (pre : List Input) (i : Input) : run pf (pre ++ [i]) =
    ((run pf pre).1.step pf i, (run pf pre).1.watch (run pf pre).2 i) := by
  simp [run]

/-! ## The model is the application's

Without a route `AutonomousService` stays out of it. -/

/-- The drive train of the application. -/
def of (w : World F) : DriveTrain F := ⟨w.motor, w.state, w.kinematics⟩

/-- The event of the application that an input stands for. -/
inductive Plays (pf : Platform F) : App.Event F → Input → Prop
  | motorSequence (now : Nat) (cmd : MotorSequencePayload) :
      Plays pf (.datagram now (.motorSequence cmd)) (.motorSequence cmd)
  | physicsTick (now : Nat) : Plays pf (.tick now) (.physicsTick pf.kTickUs)
  | kinematicsRequest (now : Nat) :
      Plays pf (.datagram now .kinematicsRequest) .kinematicsRequest

theorem publish_motorStatus (pf : Platform F) (ms : MotorStatusPayload) (w : World F) :
    of ((App.bus pf).publish (.motorStatus ms) w) = (of w).announce ms ∧
      ((App.bus pf).publish (.motorStatus ms) w).autonomous = w.autonomous := by
  obtain ⟨hmotor, hstate, -⟩ := App.core_eq_iff.1 (App.publish_motorStatus pf ms w)
  have hkinematics : ((App.bus pf).publish (.motorStatus ms) w).kinematics =
      w.kinematics.onMotorStatus ms := by
    have hmem : Service.kinematics ∈ (App.bus pf).subscribers (.motorStatus ms) :=
      App.mem_subscribers.2 (by simp [Service.subscribes, Msg.id])
    rw [Bus.publish_eq]
    refine Bus.foldl_once World.kinematics (·.onMotorStatus ms) (fun _ => True) (fun _ => False)
      (fun _ _ h => h) (fun _ _ h => h) (fun _ _ _ => rfl) (App.subscribers_nodup pf _) hmem
      (fun s _ hne _ _ _ => ?_) _ trivial id
    cases s <;> first | rfl | exact absurd rfl hne
  refine ⟨?_, ?_⟩
  · rw [of, hmotor, hstate, hkinematics]
    rfl
  · rw [Bus.publish_eq]
    refine List.foldlRecOn (motive := fun w' : World F => w'.autonomous = w.autonomous) _ _ rfl
      fun w' hw' s _ => ?_
    cases s <;> exact hw'

/-- A handler of a tick, without a route. -/
theorem exec_physicsTick (pf : Platform F) (tick : PhysicsTickPayload) (s : Service) {w : World F}
    (hoff : w.autonomous.routeActive = false) :
    of ((App.code pf s (.physicsTick tick)).exec (App.bus pf).publish w) =
        (of w).onPhysicsTick tick s ∧
      ((App.code pf s (.physicsTick tick)).exec (App.bus pf).publish w).autonomous =
        w.autonomous := by
  cases s
  case motor =>
    have hmotor : (of w).onPhysicsTick tick .motor =
        (w.motor.onPhysicsTick tick).2.toList.foldl announce
          { of w with motor := (w.motor.onPhysicsTick tick).1 } := rfl
    rw [hmotor]
    simp only [App.code, Code.exec_single]
    cases (w.motor.onPhysicsTick tick).2 with
    | none => exact ⟨rfl, rfl⟩
    | some ms => exact publish_motorStatus pf ms _
  case autonomous => simp [App.code, AutonomousService.onPhysicsTick, hoff, onPhysicsTick]
  all_goals exact ⟨rfl, rfl⟩

theorem publish_physicsTick (pf : Platform F) (tick : PhysicsTickPayload) {w : World F}
    (hoff : w.autonomous.routeActive = false) :
    of ((App.bus pf).publish (.physicsTick tick) w) =
        ((App.bus pf).subscribers (.physicsTick tick)).foldl (onPhysicsTick tick) (of w) ∧
      ((App.bus pf).publish (.physicsTick tick) w).autonomous = w.autonomous := by
  rw [Bus.publish_eq, Bus.deliver]
  generalize (App.bus pf).subscribers (.physicsTick tick) = services
  rw [show of w = of ((App.bus pf).record (.physicsTick tick) w) from rfl,
    show w.autonomous = ((App.bus pf).record (.physicsTick tick) w).autonomous from rfl]
  replace hoff : ((App.bus pf).record (.physicsTick tick) w).autonomous.routeActive = false := hoff
  generalize (App.bus pf).record (.physicsTick tick) w = w at hoff ⊢
  induction services generalizing w with
  | nil => exact ⟨rfl, rfl⟩
  | cons s rest ih =>
      obtain ⟨hof, hsame⟩ := exec_physicsTick pf tick s hoff
      obtain ⟨hrest, hsame'⟩ := ih _ ((congrArg (·.routeActive) hsame).trans hoff)
      exact ⟨hrest.trans (by rw [hof]; rfl), hsame'.trans hsame⟩

/-- **Step refinement.** An event of the application is a step of its drive train. -/
theorem step_of {pf : Platform F} {e : App.Event F} {i : Input} (hplays : Plays pf e i)
    {w : World F} (hoff : w.autonomous.routeActive = false) :
    of (App.step pf w e) = (of w).step pf i ∧
      (App.step pf w e).autonomous.routeActive = false := by
  cases hplays with
  | motorSequence now cmd =>
      have hauth : App.authorized (.motorSequence cmd : Msg F) = true := by
        simp [App.authorized, Msg.id, Service.publishes]
      simp only [App.step, hauth, if_true]
      rw [App.publish_sole pf (s := .motor) rfl]
      obtain ⟨hof, hsame⟩ := publish_motorStatus pf (w.motor.onMotorSequence cmd).2
        { w with
          motor := (w.motor.onMotorSequence cmd).1
          now := now
          history := .published (.motorSequence cmd) :: w.history }
      exact ⟨hof, (congrArg (·.routeActive) hsame).trans hoff⟩
  | physicsTick now =>
      obtain ⟨hof, hsame⟩ := publish_physicsTick pf (w.state.snapshot pf.kTickUs)
        (w := (App.takeSnapshot pf { w with now := now }).1) hoff
      exact ⟨hof, (congrArg (·.routeActive) hsame).trans hoff⟩
  | kinematicsRequest now =>
      have hauth : App.authorized (.kinematicsRequest : Msg F) = true := by
        simp [App.authorized, Msg.id, Service.publishes]
      simp only [App.step, hauth, if_true]
      rw [show (.kinematicsRequest : Msg F) = App.Query.kinematics.msg from rfl, App.publish_query,
        App.Query.reply, App.publish_sole pf (s := .autonomous) rfl]
      simp only [App.code, Code.exec, App.requestStretch]
      have hidle : w.autonomous.idle = true := by simp [AutonomousService.idle, hoff]
      split
      · exact ⟨rfl, hoff⟩
      · next hbusy => exact absurd hidle hbusy

/-- **Run refinement.** -/
theorem run_of {pf : Platform F} {events : List (App.Event F)} {history : List Input}
    (hplays : List.Forall₂ (Plays pf) events history) :
    of (App.run pf World.init events) = (run pf history).1 := by
  have hrun : ∀ (w : World F) (timer : Option Timer), w.autonomous.routeActive = false →
      of (App.run pf w events) =
        (history.foldl (fun x i => (x.1.step pf i, x.1.watch x.2 i)) (of w, timer)).1 := by
    induction hplays with
    | nil => exact fun _ _ _ => rfl
    | cons hfirst _ ih =>
        intro w timer hoff
        obtain ⟨hof, hoff'⟩ := step_of hfirst hoff
        rw [List.foldl_cons, ← hof]
        exact ih _ _ hoff'
  exact hrun World.init none rfl

/-- The position data published for a request is what the model answers. -/
theorem step_published (pf : Platform F) (w : World F) (now : Nat) :
    .published (.kinematicsData (of w).kinematics.onKinematicsRequest) ∈
      (App.step pf w (.datagram now .kinematicsRequest)).history := by
  have hauth : App.authorized (.kinematicsRequest : Msg F) = true := by
    simp [App.authorized, Msg.id, Service.publishes]
  simp only [App.step, hauth, if_true]
  rw [show (.kinematicsRequest : Msg F) = App.Query.kinematics.msg from rfl, App.publish_query]
  rw [Bus.publish_eq]
  have hgrows := App.bus_grows pf
  refine List.foldlRecOn
    (motive := fun w' : World F => .published (App.Query.kinematics.reply w) ∈ w'.history) _ _
    ?_ fun w' hw' s _ => ?_
  · exact List.mem_cons_self
  · exact (Code.exec_grows hgrows.refl hgrows.trans hgrows.publish _ (hgrows.code s _) w').subset
      hw'

/-! ## Steps -/

/-- `MotorService` and `StateService` know the same id, and the counter fits its type. -/
structure Regular (s : DriveTrain F) : Prop where
  known : s.state.lastCmdId = s.motor.currentCmd.cmdId
  counter : s.kinematics.elapsedUs < 2 ^ 32

/-- `KinematicsService` knows the id of the current sequence too. -/
def Follows (s : DriveTrain F) : Prop := s.kinematics.cmdId = s.motor.currentCmd.cmdId

/-- A status of the motor's own id. -/
theorem announce_regular {s : DriveTrain F} (hcounter : s.kinematics.elapsedUs < 2 ^ 32)
    {ms : MotorStatusPayload} (hms : ms.cmdId = s.motor.currentCmd.cmdId) :
    (s.announce ms).Regular := by
  constructor
  · simpa [announce, StateService.onMotorStatus_eq] using hms
  · show (s.kinematics.onMotorStatus ms).elapsedUs < 2 ^ 32
    rw [KinematicsService.onMotorStatus_elapsedUs]
    split
    · exact Nat.two_pow_pos 32
    · exact hcounter

/-- If everybody knows the id already, the counter goes on. -/
theorem announce_follows {s : DriveTrain F} (h : s.Follows) {ms : MotorStatusPayload}
    (hms : ms.cmdId = s.motor.currentCmd.cmdId) : (s.announce ms).Follows ∧
      (s.announce ms).kinematics.elapsedUs = s.kinematics.elapsedUs := by
  have hid : ms.cmdId = s.kinematics.cmdId := hms.trans h.symm
  constructor
  · show (s.kinematics.onMotorStatus ms).cmdId = _
    rw [KinematicsService.onMotorStatus_cmdId, hid, ite_self]
    exact h
  · show (s.kinematics.onMotorStatus ms).elapsedUs = _
    rw [KinematicsService.onMotorStatus_elapsedUs]
    simp [hid]

section Tick

variable {s : DriveTrain F}

/-- `MotorService` on a tick: the state it leaves is announced, or nothing is. -/
theorem onPhysicsTick_motor (tick : PhysicsTickPayload) (s : DriveTrain F) :
    s.onPhysicsTick tick .motor = { s with motor := (s.motor.onPhysicsTick tick).1 } ∨
      s.onPhysicsTick tick .motor = announce { s with motor := (s.motor.onPhysicsTick tick).1 }
        (s.motor.onPhysicsTick tick).1.status := by
  unfold onPhysicsTick
  cases hms : (s.motor.onPhysicsTick tick).2 with
  | none => exact .inl (by simp [hms])
  | some ms =>
      have hstatus := MotorService.onPhysicsTick_status hms
      exact .inr (by simp [hms, hstatus])

/-- A handler of a tick keeps the command and the two services regular. -/
theorem onPhysicsTick_regular (h : s.Regular) (tick : PhysicsTickPayload) (service : Service) :
    (s.onPhysicsTick tick service).Regular ∧
      (s.onPhysicsTick tick service).motor.currentCmd = s.motor.currentCmd := by
  have hcmd := s.motor.onPhysicsTick_cmd tick
  cases service with
  | motor =>
      rcases onPhysicsTick_motor tick s with hsame | hannounced
      · rw [hsame]
        exact ⟨⟨h.known.trans (congrArg (·.cmdId) hcmd.symm), h.counter⟩, hcmd⟩
      · rw [hannounced]
        exact ⟨announce_regular (s := { s with motor := (s.motor.onPhysicsTick tick).1 }) h.counter
          (MotorService.status_cmdId _), hcmd⟩
  | kinematics => exact ⟨⟨h.known, Nat.mod_lt _ (Nat.two_pow_pos 32)⟩, rfl⟩
  | _ => exact ⟨h, rfl⟩

/-- On a tick of the current sequence only `KinematicsService` changes the counter. -/
theorem onPhysicsTick_follows (h : s.Follows) {tick : PhysicsTickPayload}
    (htick : tick.cmdId = s.motor.currentCmd.cmdId) (service : Service) :
    (s.onPhysicsTick tick service).Follows ∧ (service ≠ .kinematics →
      (s.onPhysicsTick tick service).kinematics.elapsedUs = s.kinematics.elapsedUs) := by
  have hcmd := s.motor.onPhysicsTick_cmd tick
  cases service with
  | motor =>
      have hmoved : Follows { s with motor := (s.motor.onPhysicsTick tick).1 } :=
        Eq.trans h (congrArg (·.cmdId) hcmd.symm)
      rcases onPhysicsTick_motor tick s with hsame | hannounced
      · rw [hsame]
        exact ⟨hmoved, fun _ => rfl⟩
      · rw [hannounced]
        obtain ⟨hfollows, helapsed⟩ := announce_follows hmoved (MotorService.status_cmdId _)
        exact ⟨hfollows, fun _ => helapsed⟩
  | kinematics => exact ⟨htick, fun hne => absurd rfl hne⟩
  | _ => exact ⟨h, fun _ => rfl⟩

/-- **A tick** of the current sequence adds its length to the counter, once, in whatever order the
    services get it. -/
theorem step_physicsTick (h : s.Regular) (pf : Platform F) (dtUs : Nat) :
    (s.step pf (.physicsTick dtUs)).Regular ∧ (s.Follows →
      (s.step pf (.physicsTick dtUs)).Follows ∧
        (s.step pf (.physicsTick dtUs)).kinematics.elapsedUs =
          (s.kinematics.elapsedUs + dtUs) % 2 ^ 32) := by
  set tick := s.state.snapshot dtUs with htick
  have hid : tick.cmdId = s.motor.currentCmd.cmdId := h.known
  constructor
  · exact List.foldlRecOn (motive := Regular) _ _ h fun _ hs' service _ =>
      (onPhysicsTick_regular hs' tick service).1
  · intro hfollows
    -- Every handler leaves an active sequence as it is, and with it the id of the tick.
    have hkeep : ∀ (service : Service) (s' : DriveTrain F),
        s'.Regular ∧ s'.Follows ∧ tick.cmdId = s'.motor.currentCmd.cmdId →
        (s'.onPhysicsTick tick service).Regular ∧ (s'.onPhysicsTick tick service).Follows ∧
          tick.cmdId = (s'.onPhysicsTick tick service).motor.currentCmd.cmdId := by
      rintro service s' ⟨hregular, hs', hid'⟩
      obtain ⟨hregular', hcmd⟩ := onPhysicsTick_regular hregular tick service
      exact ⟨hregular', (onPhysicsTick_follows hs' hid' service).1, by rw [hcmd]; exact hid'⟩
    have hmem : Service.kinematics ∈ (App.bus pf).subscribers (.physicsTick tick) :=
      App.mem_subscribers.2 (by simp [Service.subscribes, Msg.id])
    constructor
    · exact (List.foldlRecOn (motive := fun s' : DriveTrain F => s'.Regular ∧ s'.Follows ∧
        tick.cmdId = s'.motor.currentCmd.cmdId) _ _ ⟨h, hfollows, hid⟩
        fun s' hs' service _ => hkeep service s' hs').2.1
    · exact Bus.foldl_once (f := fun service s' => onPhysicsTick tick s' service)
        (fun s' => s'.kinematics.elapsedUs) (fun us => (us + dtUs) % 2 ^ 32) _ (fun _ => False)
        hkeep (fun _ _ h => h) (fun _ _ _ => rfl) (App.subscribers_nodup pf _) hmem
        (fun service _ hne s' hs' _ => (onPhysicsTick_follows hs'.2.1 hs'.2.2 service).2 hne) s
        ⟨h, hfollows, hid⟩ id

/-- **A sequence** that starts finds the counter as it was left, if its id is not new. -/
theorem step_motorSequence (h : s.Regular) (pf : Platform F) (cmd : MotorSequencePayload) :
    (s.step pf (.motorSequence cmd)).Regular ∧
      (MotorService.startsImmediately (MotorService.accept cmd) = true →
        (s.step pf (.motorSequence cmd)).Follows ∧
        (s.step pf (.motorSequence cmd)).kinematics.elapsedUs =
          if cmd.cmdId = s.kinematics.cmdId then s.kinematics.elapsedUs else 0) := by
  have hannounced : s.step pf (.motorSequence cmd) =
      announce { s with motor := (s.motor.onMotorSequence cmd).1 }
        (s.motor.onMotorSequence cmd).1.status := by
    rw [← MotorService.onMotorSequence_status]
    rfl
  have hid : (s.motor.onMotorSequence cmd).1.currentCmd.cmdId = cmd.cmdId :=
    congrArg (·.cmdId) (s.motor.onMotorSequence_cmd cmd)
  rw [hannounced]
  constructor
  · exact announce_regular (s := { s with motor := (s.motor.onMotorSequence cmd).1 }) h.counter
      (MotorService.status_cmdId _)
  · intro hstarts
    have hactive : (s.motor.onMotorSequence cmd).1.active = true :=
      (s.motor.onMotorSequence_active cmd).trans hstarts
    constructor
    · show (s.kinematics.onMotorStatus _).cmdId = _
      rw [KinematicsService.onMotorStatus_cmdId, MotorService.status_isActive, if_pos hactive]
      rfl
    · show (s.kinematics.onMotorStatus _).elapsedUs = _
      rw [KinematicsService.onMotorStatus_elapsedUs, MotorService.status_isActive,
        MotorService.status_cmdId, hid]
      by_cases hnew : cmd.cmdId = s.kinematics.cmdId
      · simp [hnew]
      · simp [hnew, hactive]

end Tick

/-! ## Runs -/

/-- The counter holds what was left in it, and the time since. -/
structure Times (t : Timer) (s : DriveTrain F) : Prop where
  follows : s.Follows
  elapsed : s.kinematics.elapsedUs = (t.leftUs + t.sinceUs) % 2 ^ 32
  left : t.leftUs < 2 ^ 32

/-- **Step lemma.** -/
theorem step_times {s : DriveTrain F} (h : s.Regular) (pf : Platform F) {timer : Option Timer}
    (htimer : ∀ t ∈ timer, Times t s) (i : Input) :
    (s.step pf i).Regular ∧ ∀ t ∈ s.watch timer i, Times t (s.step pf i) := by
  cases i with
  | motorSequence cmd =>
      obtain ⟨hregular, hstart⟩ := step_motorSequence h pf cmd
      refine ⟨hregular, fun t ht => ?_⟩
      simp only [watch] at ht
      split at ht
      · next hstarts =>
          obtain ⟨hfollows, helapsed⟩ := hstart hstarts
          obtain rfl := Option.some.inj ht
          have hleft : (if cmd.cmdId = s.kinematics.cmdId then s.kinematics.elapsedUs else 0) <
              2 ^ 32 := by
            split
            · exact h.counter
            · exact Nat.two_pow_pos 32
          exact ⟨hfollows, helapsed.trans (Nat.mod_eq_of_lt hleft).symm, hleft⟩
      · cases ht
  | physicsTick dtUs =>
      obtain ⟨hregular, hadds⟩ := step_physicsTick h pf dtUs
      refine ⟨hregular, fun t ht => ?_⟩
      simp only [watch, Option.mem_map] at ht
      obtain ⟨t, ht, rfl⟩ := ht
      obtain ⟨hfollows, helapsed⟩ := hadds (htimer t ht).follows
      refine ⟨hfollows, ?_, (htimer t ht).left⟩
      rw [helapsed, (htimer t ht).elapsed, Nat.mod_add_mod, Nat.add_assoc]
  | kinematicsRequest => exact ⟨h, htimer⟩

/-- **Run lemma.** -/
theorem run_times (pf : Platform F) (history : List Input) :
    (run pf history).1.Regular ∧ ∀ t ∈ (run pf history).2, Times t (run pf history).1 := by
  induction history using List.reverseRecOn with
  | nil => exact ⟨⟨rfl, Nat.two_pow_pos 32⟩, fun t ht => by cases ht⟩
  | append_singleton pre i ih =>
      rw [run_concat]
      exact step_times ih.1 pf ih.2 i

/-- **The elapsed time of a sequence**: in a run, every answer to a `KinematicsRequest` while a
    started sequence is the current one tells the length of the ticks since its start, if and only
    if at each of them the counter held nothing when the sequence started (its id was new, or there
    was nothing in it), and these ticks are shorter than 2³² µs. -/
theorem run_elapsed_iff (pf : Platform F) (history : List Input) :
    (∀ pre, pre ++ [.kinematicsRequest] <+: history → ∀ t ∈ (run pf pre).2,
      (run pf pre).1.kinematics.onKinematicsRequest.elapsedUs = t.sinceUs) ↔
    ∀ pre, pre ++ [.kinematicsRequest] <+: history → ∀ t ∈ (run pf pre).2,
      t.leftUs = 0 ∧ t.sinceUs < 2 ^ 32 := by
  refine forall₄_congr fun pre _ t ht => ?_
  obtain ⟨-, helapsed, hleft⟩ := (run_times pf pre).2 t ht
  rw [show (run pf pre).1.kinematics.onKinematicsRequest.elapsedUs = _ from helapsed]
  omega

/-- A sequence of two ticks, executed to its end, and then once more. -/
def twice : List Input :=
  let cmd : MotorSequencePayload := { cmdId := 7, numSteps := 1, steps := fun _ => ⟨100, 20000⟩ }
  [.motorSequence cmd, .physicsTick 10000, .physicsTick 10000, .motorSequence cmd]

/-- The second time starts with the time of the first. -/
theorem twice_elapsed : ¬ ∀ pre, pre ++ [.kinematicsRequest] <+: twice ++ [.kinematicsRequest] →
    ∀ t ∈ (run (.libstdcxx fun _ _ => (0 : ℚ)) pre).2,
      (run (.libstdcxx fun _ _ => (0 : ℚ)) pre).1.kinematics.onKinematicsRequest.elapsedUs =
        t.sinceUs := by
  intro h
  have hfinal := h twice (List.prefix_refl _) ⟨20000, 0⟩ (by decide +kernel)
  exact absurd hfinal (by decide +kernel)

end DriveTrain

end ReflectPytest
