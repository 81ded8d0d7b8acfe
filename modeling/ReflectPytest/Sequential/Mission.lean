import ReflectPytest.Autonomous.Coverage
import ReflectPytest.Library.Pursuit
import ReflectPytest.Sequential.Schedule

set_option autoImplicit false

/-! # A mission comes to its end

`AutonomousService`, `MotorService`, `StateService`, `KinematicsService` and the clock close a loop:
the controller polls the position in every tick, a node that is reached starts the motor for the
next one, the motor's status sets the speed of the ticks, and these move the vehicle and use up the
time the motor is given. In the order in which the subscribers of a tick are called, that is a
round of a pursuit of the nodes (`Mirrors.tick`), so a route whose nodes are far enough apart and
whose timeouts last comes to its end (`mission_completes`). In exact arithmetic and without
environment tuning. -/

namespace ReflectPytest

open SyncBus FloatOps

namespace AutonomousService

variable {F : Type} [FloatOps F]

/-- The controller driving to a node of a command, without environment data. -/
def heading (cmd : AutoDriveCommandPayload F) (i : Nat) : AutonomousService F :=
  { init.acceptCommand cmd with currentNodeIdx := i }

/-- The motor command of a node, without environment data. -/
def legCommand (cmd : AutoDriveCommandPayload F) (i : Nat) : MotorSequencePayload :=
  (heading cmd i).motorSequence fun _ => default

/-- Without environment data the motor command depends on the command and the node only. -/
theorem motorSequence_eq {s : AutonomousService F} (deref : EnvPtr → EnvironmentPayload F)
    (henv : s.currentEnvPtr = none) :
    s.motorSequence deref = legCommand s.cmd s.currentNodeIdx := by
  simp [legCommand, heading, motorSequence, targetSpeed, acceptCommand, node, henv]

/-- The node is not reached: nothing happens. -/
theorem checkNode_far {s : AutonomousService F} {deref : EnvPtr → EnvironmentPayload F} {idx : Nat}
    {kin : KinematicsPayload F}
    (h : reached (s.node idx).targetPos.x s.lastPosM kin.positionM = false) :
    s.checkNode deref idx kin = (s, []) := by
  simp [checkNode, h]

/-- What recording the statistics leaves alone. -/
theorem recordStats_route (s : AutonomousService F) (positionM : F) :
    (s.recordStats positionM).1.cmd = s.cmd ∧
      (s.recordStats positionM).1.currentNodeIdx = s.currentNodeIdx ∧
      (s.recordStats positionM).1.routeActive = s.routeActive ∧
      (s.recordStats positionM).1.currentEnvPtr = s.currentEnvPtr ∧
      messages (s.recordStats positionM).2 = [] := by
  unfold recordStats
  dsimp only
  split <;> exact ⟨rfl, rfl, rfl, rfl, rfl⟩

/-- A node is reached, and there is another one. -/
theorem checkNode_next {s : AutonomousService F} (deref : EnvPtr → EnvironmentPayload F) {idx : Nat}
    {kin : KinematicsPayload F} (hmax : s.cmd.numNodes ≤ 8)
    (h : reached (s.node idx).targetPos.x s.lastPosM kin.positionM = true)
    (hmore : s.currentNodeIdx + 1 < s.cmd.numNodes) (henv : s.currentEnvPtr = none) :
    ∃ s', (s.checkNode deref idx kin).1 = s' ∧ s'.cmd = s.cmd ∧
      s'.currentNodeIdx = s.currentNodeIdx + 1 ∧ s'.routeActive = s.routeActive ∧
      s'.currentEnvPtr = none ∧ messages (s.checkNode deref idx kin).2 =
        [.motorSequence (legCommand s.cmd (s.currentNodeIdx + 1))] := by
  obtain ⟨hcmd, hidx, hactive, hptr, hnone⟩ := s.recordStats_route kin.positionM
  have hmod : (s.currentNodeIdx + 1) % 2 ^ 8 = s.currentNodeIdx + 1 := by omega
  refine ⟨_, rfl, ?_⟩
  simp only [checkNode, h, if_true, advanceNode, hcmd, hidx, hmod, not_le.2 hmore, if_false,
    messages_append, hnone, List.nil_append]
  refine ⟨trivial, trivial, hactive, hptr.trans henv, ?_⟩
  rw [publishMotorSequenceForCurrentNode, motorSequence_eq deref]
  · rfl
  · exact hptr.trans henv

/-- The last node is reached. -/
theorem checkNode_last {s : AutonomousService F} (deref : EnvPtr → EnvironmentPayload F) {idx : Nat}
    {kin : KinematicsPayload F} (hmax : s.cmd.numNodes ≤ 8)
    (h : reached (s.node idx).targetPos.x s.lastPosM kin.positionM = true)
    (hlast : s.currentNodeIdx + 1 = s.cmd.numNodes) :
    (s.checkNode deref idx kin).1.routeActive = false ∧
      ∃ status, status.routeComplete = true ∧ status.currentNodeIdx = s.cmd.numNodes ∧
        messages (s.checkNode deref idx kin).2 =
          [.autoDriveStatus status, .motorSequence stopSequence] := by
  obtain ⟨hcmd, hidx, -, -, hnone⟩ := s.recordStats_route kin.positionM
  have hmod : s.cmd.numNodes % 2 ^ 8 = s.cmd.numNodes := by omega
  simp only [checkNode, h, if_true, advanceNode, hcmd, hidx, hlast, hmod, le_refl,
    messages_append, hnone, List.nil_append]
  exact ⟨trivial, _, rfl, rfl, rfl⟩

end AutonomousService

namespace App

open AutonomousService

/-! ## The course of a route -/

/-- The speed the vehicle drives at. -/
def cruiseRpm (cmd : AutoDriveCommandPayload ℚ) : Int :=
  clampRpm ((legCommand cmd 0).steps ⟨0, by decide⟩).speedRpm

/-- The time the motor is given for a node. -/
def legUs (cmd : AutoDriveCommandPayload ℚ) (i : Nat) : Nat :=
  ((legCommand cmd i).steps ⟨0, by decide⟩).durationUs

/-- The nodes of a route, with the time the motor is given for each and what a tick amounts to. -/
def course (pf : Platform ℚ) (cmd : AutoDriveCommandPayload ℚ) : Pursuit.Course ℚ where
  legs := cmd.numNodes
  target i := ((cmd.route.get? i).getD default).targetPos.x
  grant i := legUs cmd i
  stride := cruiseRpm cmd * (1 / 100) * (pf.kTickUs / 1000000)
  cost := pf.kTickUs
  tolerance := 1 / 10

/-- The mission was reported complete since the history was `h₀`. -/
def ReportedSince (cmd : AutoDriveCommandPayload ℚ) (h₀ : List (Record ℚ)) (w : World ℚ) : Prop :=
  ∃ l status, w.history = l ++ h₀ ∧ .published (.autoDriveStatus status) ∈ l ∧
    status.routeComplete = true ∧ status.currentNodeIdx = cmd.numNodes

/-- The vehicle is under way to the node of the leg. -/
structure Underway (cmd : AutoDriveCommandPayload ℚ) (h₀ : List (Record ℚ)) (s : Pursuit.State ℚ)
    (w : World ℚ) : Prop where
  command : w.autonomous.cmd = cmd
  node : w.autonomous.currentNodeIdx = s.leg
  active : w.autonomous.routeActive = true
  blind : w.autonomous.currentEnvPtr = none
  seen : w.autonomous.lastPosM = s.seen
  position : w.kinematics.positionM = s.position
  motor : ∃ r : Nat, w.motor = ⟨true, MotorService.accept (legCommand cmd s.leg), 0, r⟩ ∧
    (r : ℚ) = s.budget
  known : Matches w
  since : h₀ <:+ w.history

/-- The mission is over: it was reported complete, and the motor is off. -/
structure Ended (cmd : AutoDriveCommandPayload ℚ) (h₀ : List (Record ℚ)) (s : Pursuit.State ℚ)
    (w : World ℚ) : Prop where
  inactive : w.autonomous.routeActive = false
  stopped : w.motor.active = false
  known : Matches w
  position : w.kinematics.positionM = s.position
  reported : ReportedSince cmd h₀ w

/-- The world is where the pursuit is. -/
inductive Mirrors (cmd : AutoDriveCommandPayload ℚ) (h₀ : List (Record ℚ)) (s : Pursuit.State ℚ)
    (w : World ℚ) : Prop
  | underway (hleg : s.leg < cmd.numNodes) (h : Underway cmd h₀ s w)
  | ended (hleg : s.leg = cmd.numNodes) (h : Ended cmd h₀ s w)

/-- What a mission depends on. -/
def Same (w w' : World ℚ) : Prop :=
  w'.motor = w.motor ∧ w'.state = w.state ∧ w'.kinematics.positionM = w.kinematics.positionM ∧
    w'.autonomous.cmd = w.autonomous.cmd ∧
    w'.autonomous.currentNodeIdx = w.autonomous.currentNodeIdx ∧
    w'.autonomous.routeActive = w.autonomous.routeActive ∧
    w'.autonomous.currentEnvPtr = w.autonomous.currentEnvPtr ∧
    w'.autonomous.lastPosM = w.autonomous.lastPosM ∧ w.history <:+ w'.history

variable {cmd : AutoDriveCommandPayload ℚ} {h₀ : List (Record ℚ)} {s : Pursuit.State ℚ}
  {w w' : World ℚ}

theorem ReportedSince.later (h : ReportedSince cmd h₀ w) (hle : w.history <:+ w'.history) :
    ReportedSince cmd h₀ w' := by
  obtain ⟨l, status, heq, hmem, hstatus⟩ := h
  obtain ⟨k, hk⟩ := hle
  refine ⟨k ++ l, status, ?_, List.mem_append_right _ hmem, hstatus⟩
  rw [← hk, heq, List.append_assoc]

theorem Same.refl (w : World ℚ) : Same w w :=
  ⟨rfl, rfl, rfl, rfl, rfl, rfl, rfl, rfl, List.suffix_rfl⟩

theorem Same.trans {w'' : World ℚ} (h : Same w w') (h' : Same w' w'') : Same w w'' := by
  obtain ⟨h₁, h₂, h₃, h₄, h₅, h₆, h₇, h₈, h₉⟩ := h
  obtain ⟨h₁', h₂', h₃', h₄', h₅', h₆', h₇', h₈', h₉'⟩ := h'
  exact ⟨h₁'.trans h₁, h₂'.trans h₂, h₃'.trans h₃, h₄'.trans h₄, h₅'.trans h₅, h₆'.trans h₆,
    h₇'.trans h₇, h₈'.trans h₈, h₉.trans h₉'⟩

theorem Underway.congr (h : Underway cmd h₀ s w) (hsame : Same w w') : Underway cmd h₀ s w' := by
  obtain ⟨hmotor, hstate, hpos, hcmd, hidx, hactive, henv, hseen, hhistory⟩ := hsame
  refine ⟨hcmd.trans h.command, hidx.trans h.node, hactive.trans h.active, henv.trans h.blind,
    hseen.trans h.seen, hpos.trans h.position, ?_, h.known.congr hmotor hstate,
    h.since.trans hhistory⟩
  rw [hmotor]
  exact h.motor

theorem Ended.congr (h : Ended cmd h₀ s w) (hsame : Same w w') : Ended cmd h₀ s w' := by
  obtain ⟨hmotor, hstate, hpos, -, -, hactive, -, -, hhistory⟩ := hsame
  refine ⟨hactive.trans h.inactive, ?_, h.known.congr hmotor hstate, hpos.trans h.position,
    h.reported.later hhistory⟩
  rw [hmotor]
  exact h.stopped

theorem Mirrors.congr (h : Mirrors cmd h₀ s w) (hsame : Same w w') : Mirrors cmd h₀ s w' := by
  cases h with
  | underway hleg h => exact .underway hleg (h.congr hsame)
  | ended hleg h => exact .ended hleg (h.congr hsame)

/-! ## Publishing -/

/-- The messages a mission has nothing to do with. -/
def aloof : List MsgId :=
  [.stateRequest, .stateData, .thermalRequest, .thermalData, .powerRequest, .powerData,
    .environmentData, .environmentAck, .autoDriveStatus]

theorem publish_aloof (pf : Platform ℚ) {m : Msg ℚ} (hm : m.id ∈ aloof) (w : World ℚ) :
    Same w ((bus pf).publish m w) := by
  have hclosed : ∀ h : Service, ∀ id ∈ aloof, ∀ id' ∈ h.answers id, id' ∈ aloof := by
    intro h
    cases h <;> decide
  refine (bus pf).publish_preserves (C := fun m => m.id ∈ aloof) (I := Same w)
    (fun m hm h _ => ?_) (fun m hm h _ => ?_) (fun m _ w' hw' => ?_) m hm w (.refl w)
  · exact (code_emits pf h m).mono fun _ hid => hclosed h _ hm _ hid
  · cases h <;> cases m <;> first
      | exact trivial
      | exact (Code.preserves_single _ _).2 fun _ hw => hw
      | simp [aloof, Msg.id] at hm
  · exact hw'.trans ⟨rfl, rfl, rfl, rfl, rfl, rfl, rfl, rfl, List.suffix_cons _ _⟩

/-- What is published is added to the history. -/
theorem record_suffix_publish (pf : Platform ℚ) (m : Msg ℚ) (w : World ℚ) :
    .published m :: w.history <:+ ((bus pf).publish m w).history := by
  have hrecorded : .published m :: w.history <:+ ((bus pf).record m w).history := List.suffix_rfl
  rw [Bus.publish_eq]
  refine List.foldlRecOn (motive := fun w' : World ℚ => .published m :: w.history <:+ w'.history)
    ((bus pf).subscribers m) _ hrecorded fun v hv h _ => ?_
  exact hv.trans (Code.exec_grows (bus_grows pf).refl (bus_grows pf).trans (bus_grows pf).publish _
    ((bus_grows pf).code h m) v)

theorem reportedSince_publish (pf : Platform ℚ) {status : AutoDriveStatusPayload ℚ}
    (hsince : h₀ <:+ w.history) (hcomplete : status.routeComplete = true)
    (hidx : status.currentNodeIdx = cmd.numNodes) :
    ReportedSince cmd h₀ ((bus pf).publish (.autoDriveStatus status) w) := by
  obtain ⟨l, hl⟩ := record_suffix_publish pf (.autoDriveStatus status) w
  obtain ⟨k, hk⟩ := hsince
  refine ⟨l ++ .published (.autoDriveStatus status) :: k, status, ?_, by simp, hcomplete, hidx⟩
  rw [← hl, List.append_assoc, List.cons_append, hk]

/-- **A motor command** goes to the motor, whose status goes to `StateService`; the controller and
    the vehicle stay as they are. -/
theorem publish_command (pf : Platform ℚ) (seq : MotorSequencePayload) (w : World ℚ) :
    let w' := (bus pf).publish (.motorSequence seq) w
    w'.motor = (w.motor.onMotorSequence seq).1 ∧ Matches w' ∧
      w'.kinematics.positionM = w.kinematics.positionM ∧ w'.autonomous = w.autonomous ∧
      w.history <:+ w'.history := by
  obtain ⟨hmotor, hstate, hpos⟩ := core_eq_iff.1 (publish_motorSequence pf seq w)
  have hauto := congrArg Navigation.autonomous
    (Navigation.publish_quiet pf (m := .motorSequence seq) (by simp [Navigation.Quiet, Msg.id]) w)
  refine ⟨hmotor, .of_announced ?_ ⟨_, hstate⟩, hpos, hauto, (bus_grows pf).publish _ w⟩
  rw [hmotor]

/-- **The end of a route**: the final status, then the stop. -/
theorem publish_end (pf : Platform ℚ) {status : AutoDriveStatusPayload ℚ}
    (hoff : w.autonomous.routeActive = false) (hpos : w.kinematics.positionM = s.position)
    (hsince : h₀ <:+ w.history) (hcomplete : status.routeComplete = true)
    (hidx : status.currentNodeIdx = cmd.numNodes) :
    Ended cmd h₀ s ((bus pf).publish (.motorSequence stopSequence)
      ((bus pf).publish (.autoDriveStatus status) w)) := by
  obtain ⟨-, -, hpos', -, -, hactive, -, -, -⟩ :=
    publish_aloof pf (m := .autoDriveStatus status) (by simp [aloof, Msg.id]) w
  obtain ⟨hmotor, hknown, hpos'', hauto, hhistory⟩ := publish_command pf stopSequence
    ((bus pf).publish (.autoDriveStatus status) w)
  refine ⟨?_, congrArg MotorService.active hmotor, hknown, (hpos''.trans hpos').trans hpos,
    (reportedSince_publish pf hsince hcomplete hidx).later hhistory⟩
  exact (congrArg AutonomousService.routeActive hauto).trans (hactive.trans hoff)

/-- The motor starts with a command that has time. -/
theorem onMotorSequence_leg (m : MotorService) {i : Nat} (htime : 0 < legUs cmd i) :
    (m.onMotorSequence (legCommand cmd i)).1 =
      ⟨true, MotorService.accept (legCommand cmd i), 0, legUs cmd i⟩ := by
  have hdur : ((MotorService.accept (legCommand cmd i)).steps 0).durationUs = legUs cmd i := rfl
  have hstarts :
      MotorService.startsImmediately (MotorService.accept (legCommand cmd i)) = true := by
    unfold MotorService.startsImmediately
    rw [hdur]
    simp [htime, MotorService.accept, legCommand, motorSequence]
  simp only [MotorService.onMotorSequence, hstarts, if_true, hdur]

/-! ## Polling -/

omit cmd s w w' in
/-- From before the target, a position counts as reached within the tolerance before it or beyond
    it. -/
theorem reached_iff {target seen position : ℚ} (hseen : seen ≤ target - 1 / 10) :
    reached target seen position = true ↔ target - 1 / 10 < position := by
  simp only [reached, Bool.or_eq_true, lt_rat, abs_rat, lit_rat, le_rat, decide_eq_true_eq]
  constructor
  · rintro (hnear | hcrossed)
    · linarith [(abs_lt.1 hnear).2]
    · have hpos : 0 < target - seen := by linarith
      linarith [nonpos_of_mul_nonpos_right hcrossed hpos]
  · intro h
    rcases lt_or_ge position target with hbefore | hbeyond
    · exact .inl (abs_lt.2 ⟨by linarith, by linarith⟩)
    · exact .inr (mul_nonpos_of_nonneg_of_nonpos (by linarith) (by linarith))

theorem legUs_pos {pf : Platform ℚ} (hC : (course pf cmd).Passable) {i : Nat}
    (hi : i + 1 < cmd.numNodes) : 0 < legUs cmd (i + 1) := by
  have henough := hC.enough i hi
  have hapart := hC.apart i hi
  have hgap : 0 ≤ (course pf cmd).target (i + 1) - (course pf cmd).target i +
      (course pf cmd).tolerance := by
    linarith [hC.stride_pos, hC.tolerance_pos]
  have hcost := mul_nonneg hgap hC.cost_pos.le
  have hprice := mul_pos hC.cost_pos hC.stride_pos
  have hgrant : 0 < (legUs cmd (i + 1) : ℚ) :=
    (mul_pos_iff_of_pos_right hC.stride_pos).1 (lt_of_lt_of_le (by linarith) henough)
  exact_mod_cast hgrant

/-- **The controller on a sample** of the present position is a look. -/
theorem Mirrors.sample {pf : Platform ℚ} (hC : (course pf cmd).Passable) (hmax : cmd.numNodes ≤ 8)
    (htuning : cmd.useEnvironmentTuning = false)
    (hunseen : s.leg < cmd.numNodes → s.seen ≤ (course pf cmd).target s.leg - 1 / 10)
    (h : Mirrors cmd h₀ s w) {kin : KinematicsPayload ℚ} (hkin : kin.positionM = s.position) :
    Mirrors cmd h₀ (s.act (course pf cmd) .look) ((bus pf).publish (.kinematicsData kin) w) := by
  rw [publish_sole pf (s := .autonomous) rfl]
  have hrecorded : Same w ((bus pf).record (.kinematicsData kin) w) :=
    ⟨rfl, rfl, rfl, rfl, rfl, rfl, rfl, rfl, List.suffix_cons _ _⟩
  replace h := h.congr hrecorded
  generalize (bus pf).record (.kinematicsData kin) w = w at h
  cases h with
  | ended hleg h =>
      have hidle : w.autonomous.idle = true := by
        simp [AutonomousService.idle, h.inactive]
      rw [Pursuit.State.look_done (C := course pf cmd) hleg]
      simp only [code, Code.exec, requestStretch, hidle, if_true, List.foldl_nil]
      exact .ended hleg ⟨h.inactive, h.stopped, h.known, h.position, h.reported⟩
  | underway hleg h =>
      have hidle : w.autonomous.idle = false := by
        simp [AutonomousService.idle, h.active, h.command, h.node, hleg]
      have hrequest : messages (w.autonomous.requestEnvironment w.environment.deref kin) = [] := by
        simp [requestEnvironment, needsEnvironment, h.command, htuning]
      simp only [code, Code.exec, requestStretch, hidle, hrequest, checkStretch,
        Bool.false_eq_true, if_false, List.foldl_nil]
      have htarget : (w.autonomous.node w.autonomous.currentNodeIdx).targetPos.x =
          (course pf cmd).target s.leg := by
        simp [AutonomousService.node, h.command, h.node, course]
      have hcheck : reached _ s.seen s.position = true ↔ _ := reached_iff (hunseen hleg)
      rw [← htarget, ← h.seen, ← hkin] at hcheck
      by_cases hreached : (course pf cmd).target s.leg - (course pf cmd).tolerance < s.position
      · have hyes := hcheck.2 (by rw [htarget, hkin]; exact hreached)
        rw [Pursuit.State.act, if_pos ⟨hleg, hreached⟩]
        rcases Nat.lt_or_ge (s.leg + 1) cmd.numNodes with hmore | hlast
        · -- the next node is started from inside the sample
          obtain ⟨s', hs', hcmd, hidx, hactive, henv, hms⟩ := checkNode_next
            w.environment.deref (by rw [h.command]; exact hmax) hyes
            (by rw [h.command, h.node]; exact hmore) h.blind
          rw [hs', hms, h.command, h.node]
          obtain ⟨hmotor, hknown, hpos, hauto, hhistory⟩ :=
            publish_command pf (legCommand cmd (s.leg + 1))
            { w with autonomous := s' }
          rw [onMotorSequence_leg _ (legUs_pos hC hmore)] at hmotor
          refine .underway hmore ⟨?_, ?_, ?_, ?_, hkin, hpos.trans h.position, ⟨_, hmotor, rfl⟩,
            hknown, h.since.trans hhistory⟩
          · exact (congrArg AutonomousService.cmd hauto).trans (hcmd.trans h.command)
          · exact (congrArg AutonomousService.currentNodeIdx hauto).trans
              (hidx.trans (congrArg (· + 1) h.node))
          · exact (congrArg AutonomousService.routeActive hauto).trans (hactive.trans h.active)
          · exact (congrArg AutonomousService.currentEnvPtr hauto).trans henv
        · have hend : s.leg + 1 = cmd.numNodes := le_antisymm hleg hlast
          obtain ⟨hoff, status, hcomplete, hidx, hms⟩ := checkNode_last
            w.environment.deref (by rw [h.command]; exact hmax) hyes
            (by rw [h.command, h.node]; exact hend)
          rw [hms, List.foldl_cons, List.foldl_cons, List.foldl_nil]
          have hended := publish_end pf (w := { w with
            autonomous := (w.autonomous.checkNode w.environment.deref w.autonomous.currentNodeIdx
              kin).1 }) hoff h.position h.since hcomplete (hidx.trans (congrArg _ h.command))
          exact .ended hend ⟨hended.inactive, hended.stopped, hended.known,
            hended.position, hended.reported⟩
      · have hno : reached (w.autonomous.node w.autonomous.currentNodeIdx).targetPos.x
            w.autonomous.lastPosM kin.positionM = false := by
          rw [← Bool.not_eq_true, hcheck, htarget, hkin]
          exact hreached
        rw [Pursuit.State.act, if_neg fun hboth => hreached hboth.2, checkNode_far hno]
        exact .underway hleg ⟨h.command, h.node, h.active, h.blind, hkin, h.position, h.motor,
          h.known, h.since⟩

theorem Mirrors.position_eq (h : Mirrors cmd h₀ s w) : w.kinematics.positionM = s.position := by
  cases h with
  | underway _ h => exact h.position
  | ended _ h => exact h.position

/-- **A poll** is a look. -/
theorem Mirrors.poll {pf : Platform ℚ} (hC : (course pf cmd).Passable) (hmax : cmd.numNodes ≤ 8)
    (htuning : cmd.useEnvironmentTuning = false)
    (hunseen : s.leg < cmd.numNodes → s.seen ≤ (course pf cmd).target s.leg - 1 / 10)
    (h : Mirrors cmd h₀ s w) :
    Mirrors cmd h₀ (s.act (course pf cmd) .look) ((bus pf).publish .kinematicsRequest w) := by
  rw [publish_sole pf (s := .kinematics) rfl]
  have hrecorded : Same w ((bus pf).record .kinematicsRequest w) :=
    ⟨rfl, rfl, rfl, rfl, rfl, rfl, rfl, rfl, List.suffix_cons _ _⟩
  exact (h.congr hrecorded).sample hC hmax htuning hunseen h.position_eq

/-! ## Ticks -/

/-- What the subscribers of a tick do in a mission. -/
def actionOf : Service → Option Pursuit.Action
  | .kinematics => some .move
  | .motor => some .pay
  | .autonomous => some .look
  | _ => none

/-- The tick of a mission under way. -/
structure Drives (pf : Platform ℚ) (cmd : AutoDriveCommandPayload ℚ) (tick : PhysicsTickPayload) :
    Prop where
  cmdId : tick.cmdId = 999
  speed : tick.speedRpm = cruiseRpm cmd
  dt : tick.dtUs = pf.kTickUs

section

variable {pf : Platform ℚ} {tick : PhysicsTickPayload}

theorem Mirrors.move (htick : Drives pf cmd tick) (h : Mirrors cmd h₀ s w) :
    Mirrors cmd h₀ (s.act (course pf cmd) .move)
      ((code pf .kinematics (.physicsTick tick)).exec (bus pf).publish w) := by
  have hmoved : w.kinematics.positionM +
      ofInt tick.speedRpm * kRpmToMps * (ofInt tick.dtUs / lit 1000000) =
        s.position + (course pf cmd).stride := by
    rw [h.position_eq, htick.speed, htick.dt]
    rfl
  cases h with
  | underway hleg h =>
      exact .underway hleg
        ⟨h.command, h.node, h.active, h.blind, h.seen, hmoved, h.motor, h.known, h.since⟩
  | ended hleg h => exact .ended hleg ⟨h.inactive, h.stopped, h.known, hmoved, h.reported⟩

/-- The motor has time left for the tick. -/
theorem Mirrors.pay (htick : Drives pf cmd tick)
    (haffords : s.leg < cmd.numNodes → (course pf cmd).cost < s.budget) (h : Mirrors cmd h₀ s w) :
    Mirrors cmd h₀ (s.act (course pf cmd) .pay)
      ((code pf .motor (.physicsTick tick)).exec (bus pf).publish w) := by
  cases h with
  | underway hleg h =>
      obtain ⟨r, hmotor, hr⟩ := h.motor
      have hafford : (pf.kTickUs : ℚ) < r := by
        rw [hr]
        exact haffords hleg
      have hlt : pf.kTickUs < r := by exact_mod_cast hafford
      have hcharged : w.motor.onPhysicsTick tick =
          (⟨true, MotorService.accept (legCommand cmd s.leg), 0, r - pf.kTickUs⟩, none) := by
        rw [hmotor]
        simp [MotorService.onPhysicsTick, MotorService.charges, htick.cmdId, htick.dt, legCommand,
          motorSequence, hlt]
      rw [code, Code.exec_single, hcharged]
      refine .underway hleg ⟨h.command, h.node, h.active, h.blind, h.seen, h.position,
        ⟨_, rfl, ?_⟩, ?_, h.since⟩
      · rw [Nat.cast_sub hlt.le, hr]
        rfl
      · have hknown := h.known
        rw [Matches, hmotor] at hknown
        exact hknown
  | ended hleg h =>
      have hidle : w.motor.onPhysicsTick tick = (w.motor, none) := by
        simp [MotorService.onPhysicsTick, MotorService.charges, h.stopped]
      rw [code, Code.exec_single, hidle]
      exact .ended hleg ⟨h.inactive, h.stopped, h.known, h.position, h.reported⟩

theorem Mirrors.look (hC : (course pf cmd).Passable) (hmax : cmd.numNodes ≤ 8)
    (htuning : cmd.useEnvironmentTuning = false)
    (hunseen : s.leg < cmd.numNodes → s.seen ≤ (course pf cmd).target s.leg - 1 / 10)
    (h : Mirrors cmd h₀ s w) :
    Mirrors cmd h₀ (s.act (course pf cmd) .look)
      ((code pf .autonomous (.physicsTick tick)).exec (bus pf).publish w) := by
  rw [code, Code.exec_single]
  cases hactive : w.autonomous.routeActive with
  | true =>
      have hpolled := (h.poll hC hmax htuning hunseen).congr
        (publish_aloof pf (m := .powerRequest) (by simp [aloof, Msg.id]) _)
      simpa [onPhysicsTick, hactive] using hpolled
  | false =>
      cases h with
      | underway _ h => exact absurd (h.active.symm.trans hactive) (by decide)
      | ended hleg h =>
          rw [Pursuit.State.look_done (C := course pf cmd) hleg]
          simp only [onPhysicsTick, hactive, Bool.false_eq_true, if_false, messages_nil,
            List.foldl_nil]
          exact .ended hleg ⟨h.inactive, h.stopped, h.known, h.position, h.reported⟩

/-- The services that do nothing about a mission when they get the tick. -/
theorem same_of_actionOf {h : Service} (hh : actionOf h = none) :
    Same w ((code pf h (.physicsTick tick)).exec (bus pf).publish w) := by
  cases h <;> first
    | exact absurd hh (Option.some_ne_none _)
    | exact ⟨rfl, rfl, rfl, rfl, rfl, rfl, rfl, rfl, List.suffix_rfl⟩

theorem unseen_of_onRoute {todo : List Pursuit.Action}
    (hroute : Pursuit.OnCourse (course pf cmd) todo s ∨ Pursuit.Arrived (course pf cmd) todo s)
    (hleg : s.leg < cmd.numNodes) : s.seen ≤ (course pf cmd).target s.leg - 1 / 10 := by
  rcases hroute with h | h
  · exact h.unseen
  · exact absurd hleg (h.done ▸ lt_irrefl _)

/-- **The tick is a round**: every subscriber does its part in its turn. -/
theorem Mirrors.foldl (hC : (course pf cmd).Passable) (hmax : cmd.numNodes ≤ 8)
    (htuning : cmd.useEnvironmentTuning = false) (htick : Drives pf cmd tick) {hs : List Service}
    (hnodup : (hs.filterMap actionOf).Nodup)
    (hroute : Pursuit.OnCourse (course pf cmd) (hs.filterMap actionOf) s ∨
      Pursuit.Arrived (course pf cmd) (hs.filterMap actionOf) s) (h : Mirrors cmd h₀ s w) :
    Mirrors cmd h₀ ((hs.filterMap actionOf).foldl (Pursuit.State.act (course pf cmd)) s)
      (hs.foldl (fun w h => (code pf h (.physicsTick tick)).exec (bus pf).publish w) w) := by
  induction hs generalizing s w with
  | nil => exact h
  | cons service hs ih =>
      rw [List.foldl_cons]
      cases haction : actionOf service with
      | none =>
          rw [List.filterMap_cons_none haction] at hnodup hroute ⊢
          exact ih hnodup hroute (h.congr (same_of_actionOf haction))
      | some a =>
          rw [List.filterMap_cons_some haction] at hnodup hroute ⊢
          refine ih hnodup.of_cons (Pursuit.act_onRoute hC hnodup hroute) ?_
          cases service <;> simp only [actionOf, Option.some.injEq, reduceCtorEq] at haction <;>
            subst haction
          case motor =>
              refine h.pay htick fun hleg => ?_
              rcases hroute with hway | harrived
              · exact hway.affords hC hnodup
              · exact absurd hleg (harrived.done ▸ lt_irrefl _)
          case kinematics => exact h.move htick
          case autonomous => exact h.look hC hmax htuning (unseen_of_onRoute hroute)

/-- The order in which the parts of a tick are done. -/
def orderOf (pf : Platform ℚ) : List Pursuit.Action :=
  ((bus pf).subscribers (.physicsTick ⟨0, 0, 0⟩)).filterMap actionOf

theorem orderOf_perm (pf : Platform ℚ) : (orderOf pf).Perm Pursuit.actions :=
  ((subscribers_perm pf (.physicsTick ⟨0, 0, 0⟩)).filterMap actionOf).trans (by decide)

end

/-! ## Events -/

/-- The pursuit of the event. -/
def inputOf (pf : Platform ℚ) : Event ℚ → List Pursuit.Input
  | .tick _ => [.round (orderOf pf)]
  | .datagram _ .kinematicsRequest => [.look]
  | .datagram _ _ => []

/-- The event is neither a motor command nor another route. -/
def Harmless : Event ℚ → Prop
  | .tick _ => True
  | .datagram _ m => m.id ≠ .motorSequence ∧ m.id ≠ .autoDriveCommand

/-- The pursuit is on its course, and the world is where it is. -/
def Chases (pf : Platform ℚ) (cmd : AutoDriveCommandPayload ℚ) (h₀ : List (Record ℚ))
    (s : Pursuit.State ℚ) (w : World ℚ) : Prop :=
  (Pursuit.OnCourse (course pf cmd) [] s ∨ Pursuit.Arrived (course pf cmd) [] s) ∧
    Mirrors cmd h₀ s w

section

variable {pf : Platform ℚ}

/-- The motor announces the same for every node. -/
theorem status_leg (i r : Nat) :
    MotorService.status ⟨true, MotorService.accept (legCommand cmd i), 0, r⟩ =
      ⟨999, cruiseRpm cmd, true⟩ := by
  have hexecutes : MotorService.Executes ⟨true, MotorService.accept (legCommand cmd i), 0, r⟩
      (legCommand cmd i) := ⟨rfl, fun _ => Nat.one_pos⟩
  have hspeed := hexecutes.status_speedRpm
  rw [if_pos rfl, StdArray.get?_of_lt _ (by decide : 0 < kMaxSubCmds)] at hspeed
  exact congrArg (MotorStatusPayload.mk 999 · true) hspeed

/-- A tick before the end. -/
theorem Underway.drives (h : Underway cmd h₀ s w) :
    Drives pf cmd (w.state.snapshot pf.kTickUs) := by
  obtain ⟨r, hmotor, -⟩ := h.motor
  have hknown := h.known
  rw [Matches, hmotor, status_leg] at hknown
  constructor <;> simp [StateService.snapshot, hknown, StateService.stateFor]

/-- After the end a tick moves nothing. -/
theorem Ended.handler (h : Ended cmd h₀ s w) {tick : PhysicsTickPayload}
    (hspeed : tick.speedRpm = 0) (service : Service) :
    Ended cmd h₀ s ((code pf service (.physicsTick tick)).exec (bus pf).publish w) := by
  cases service with
  | motor =>
      have hidle : w.motor.onPhysicsTick tick = (w.motor, none) := by
        simp [MotorService.onPhysicsTick, MotorService.charges, h.stopped]
      rw [code, Code.exec_single, hidle]
      exact ⟨h.inactive, h.stopped, h.known, h.position, h.reported⟩
  | kinematics =>
      refine ⟨h.inactive, h.stopped, h.known, ?_, h.reported⟩
      show w.kinematics.positionM + ofInt tick.speedRpm * kRpmToMps * _ = s.position
      simp [h.position, hspeed]
  | autonomous =>
      rw [code, Code.exec_single, onPhysicsTick, h.inactive]
      exact ⟨h.inactive, h.stopped, h.known, h.position, h.reported⟩
  | _ => exact ⟨h.inactive, h.stopped, h.known, h.position, h.reported⟩

/-- **Step lemma.** A tick is a round of the pursuit. -/
theorem Chases.tick (hC : (course pf cmd).Passable) (hmax : cmd.numNodes ≤ 8)
    (htuning : cmd.useEnvironmentTuning = false) (h : Chases pf cmd h₀ s w) (now : Nat) :
    Mirrors cmd h₀ (s.round (course pf cmd) (orderOf pf)) (step pf w (.tick now)) := by
  obtain ⟨hroute, hmirrors⟩ := h
  have hsnapshot : Same w (takeSnapshot pf { w with now := now }).1 :=
    ⟨rfl, rfl, rfl, rfl, rfl, rfl, rfl, rfl, List.suffix_cons _ _⟩
  have hrecorded : Same w ((bus pf).record (.physicsTick (w.state.snapshot pf.kTickUs))
      (takeSnapshot pf { w with now := now }).1) := hsnapshot.trans
    ⟨rfl, rfl, rfl, rfl, rfl, rfl, rfl, rfl, List.suffix_cons _ _⟩
  show Mirrors cmd h₀ _ ((bus pf).publish (.physicsTick (w.state.snapshot pf.kTickUs)) _)
  rw [Bus.publish_eq]
  cases hmirrors with
  | underway hleg h =>
      have hway := hroute.resolve_right fun h => absurd hleg (h.done ▸ lt_irrefl _)
      rw [Pursuit.State.round_underway (C := course pf cmd) hleg]
      exact Mirrors.foldl hC hmax htuning h.drives ((orderOf_perm pf).nodup_iff.2 (by decide))
        (.inl (hway.begin (orderOf_perm pf))) (.underway hleg (h.congr hrecorded))
  | ended hleg h =>
      have hspeed : (w.state.snapshot pf.kTickUs).speedRpm = 0 := by
        rw [show w.state = _ from h.known]
        simp [StateService.snapshot, StateService.stateFor, h.stopped]
      rw [Pursuit.State.round_done (C := course pf cmd) hleg]
      exact .ended hleg (List.foldlRecOn (motive := Ended cmd h₀ s) _ _ (h.congr hrecorded)
        fun _ hv service _ => hv.handler hspeed service)

/-- **Step lemma** for a datagram. -/
theorem Chases.datagram (hC : (course pf cmd).Passable) (hmax : cmd.numNodes ≤ 8)
    (htuning : cmd.useEnvironmentTuning = false) (h : Chases pf cmd h₀ s w) {now : Nat} {m : Msg ℚ}
    (hm : Harmless (.datagram now m)) :
    Mirrors cmd h₀ (s.run (course pf cmd) (inputOf pf (.datagram now m)))
      (step pf w (.datagram now m)) := by
  obtain ⟨hroute, hmirrors⟩ := h
  have hlater : Same w { w with now := now } :=
    ⟨rfl, rfl, rfl, rfl, rfl, rfl, rfl, rfl, List.suffix_rfl⟩
  simp only [step]
  cases m
  case kinematicsRequest =>
      exact (hmirrors.congr hlater).poll hC hmax htuning (unseen_of_onRoute hroute)
  case motorSequence seq => exact absurd rfl hm.1
  case autoDriveCommand cmd => exact absurd rfl hm.2
  case stateRequest | powerRequest | thermalRequest | environmentData =>
      exact hmirrors.congr (hlater.trans (publish_aloof pf (by simp [aloof, Msg.id]) _))
  all_goals exact hmirrors.congr hlater

/-- **Run lemma.** A run without another command is a pursuit of the nodes. -/
theorem Chases.run (hC : (course pf cmd).Passable) (hmax : cmd.numNodes ≤ 8)
    (htuning : cmd.useEnvironmentTuning = false) {es : List (Event ℚ)}
    (hes : ∀ e ∈ es, Harmless e) (h : Chases pf cmd h₀ s w) :
    Chases pf cmd h₀ (s.run (course pf cmd) (es.flatMap (inputOf pf))) (run pf w es) := by
  induction es generalizing s w with
  | nil => exact h
  | cons e es ih =>
      have hrest := ih (s := s.run (course pf cmd) (inputOf pf e)) (w := step pf w e)
        (fun e he => hes e (.tail _ he)) ⟨?_, ?_⟩
      · rw [List.flatMap_cons, Pursuit.State.run_append]
        exact hrest
      · refine Pursuit.run_onRoute hC (fun order horder => ?_) h.1
        cases e with
        | tick now =>
            rw [Pursuit.Input.round.inj (List.mem_singleton.1 horder)]
            exact orderOf_perm pf
        | datagram now m => cases m <;> simp [inputOf] at horder
      · cases e with
        | tick now => exact h.tick hC hmax htuning now
        | datagram now m => exact h.datagram hC hmax htuning (hes _ List.mem_cons_self)

/-! ## Missions -/

/-- The route can be driven from where the vehicle is: the nodes lie ahead, two ticks apart, and
    the timeouts last from one to the next, a few ticks included. -/
structure Drivable (pf : Platform ℚ) (cmd : AutoDriveCommandPayload ℚ) (w : World ℚ) : Prop where
  nonempty : 0 < cmd.numNodes
  fits : cmd.numNodes ≤ 8
  untuned : cmd.useEnvironmentTuning = false
  passable : (course pf cmd).Passable
  unseen : w.autonomous.lastPosM ≤ (course pf cmd).target 0 - 1 / 10
  ahead : w.kinematics.positionM ≤ (course pf cmd).target 0 - 1 / 10
  enough : ((course pf cmd).target 0 - w.kinematics.positionM) * (course pf cmd).cost +
    2 * (course pf cmd).cost * (course pf cmd).stride ≤
      (course pf cmd).grant 0 * (course pf cmd).stride

/-- The pursuit that an accepted route starts. -/
def departure (cmd : AutoDriveCommandPayload ℚ) (w : World ℚ) : Pursuit.State ℚ :=
  ⟨0, w.kinematics.positionM, w.autonomous.lastPosM, legUs cmd 0⟩

/-- The controller on a route: it starts the motor for the first node. -/
theorem exec_autoDriveCommand (pf : Platform ℚ) (hnonempty : 0 < cmd.numNodes) (w : World ℚ) :
    (code pf .autonomous (.autoDriveCommand cmd)).exec (bus pf).publish w =
      (bus pf).publish (.motorSequence (legCommand cmd 0))
        { w with autonomous := w.autonomous.acceptCommand cmd } := by
  have hactive : (w.autonomous.acceptCommand cmd).routeActive = true := decide_eq_true hnonempty
  rw [code, Code.exec_single]
  simp only [onAutoDriveCommand, hactive, if_true, publishMotorSequenceForCurrentNode,
    messages_access, messages_publish, messages_nil, List.foldl_cons, List.foldl_nil]
  rw [motorSequence_eq _ rfl]
  rfl

/-- The motor has started for the first node of the accepted route. -/
theorem underway_start (pf : Platform ℚ) (hnonempty : 0 < cmd.numNodes) (htime : 0 < legUs cmd 0)
    {v : World ℚ} (hpos : v.kinematics.positionM = w.kinematics.positionM)
    (hseen : v.autonomous.lastPosM = w.autonomous.lastPosM) (hsince : h₀ <:+ v.history) :
    Underway cmd h₀ (departure cmd w) ((bus pf).publish (.motorSequence (legCommand cmd 0))
      { v with autonomous := v.autonomous.acceptCommand cmd }) := by
  obtain ⟨hmotor, hknown, hpos', hauto, hhistory⟩ := publish_command pf (legCommand cmd 0)
    { v with autonomous := v.autonomous.acceptCommand cmd }
  rw [onMotorSequence_leg _ htime] at hmotor
  refine ⟨?_, ?_, ?_, ?_, ?_, hpos'.trans hpos, ⟨_, hmotor, rfl⟩, hknown, hsince.trans hhistory⟩
  · exact congrArg AutonomousService.cmd hauto
  · exact congrArg AutonomousService.currentNodeIdx hauto
  · exact (congrArg AutonomousService.routeActive hauto).trans (decide_eq_true hnonempty)
  · exact congrArg AutonomousService.currentEnvPtr hauto
  · exact (congrArg AutonomousService.lastPosM hauto).trans hseen

/-- **An accepted route starts the pursuit** of its nodes, whatever was going on before. -/
theorem chases_start (h : Drivable pf cmd w) (now : Nat) :
    Chases pf cmd w.history (departure cmd w)
      (step pf w (.datagram now (.autoDriveCommand cmd))) := by
  have hahead : (departure cmd w).ahead (course pf cmd) [] = w.kinematics.positionM := by
    simp [Pursuit.State.ahead, departure]
  have htime : 0 < legUs cmd 0 := by
    have hgap : 0 ≤ (course pf cmd).target 0 - w.kinematics.positionM := by linarith [h.ahead]
    have hcost := mul_nonneg hgap h.passable.cost_pos.le
    have hprice := mul_pos h.passable.cost_pos h.passable.stride_pos
    have hgrant : 0 < (legUs cmd 0 : ℚ) :=
      (mul_pos_iff_of_pos_right h.passable.stride_pos).1 (lt_of_lt_of_le (by linarith) h.enough)
    exact_mod_cast hgrant
  refine ⟨.inl ⟨h.nonempty, h.unseen, ?_, ?_⟩, .underway h.nonempty ?_⟩
  · rw [hahead]
    have hstride := h.passable.stride_pos
    have hclose : w.kinematics.positionM ≤
        (course pf cmd).target 0 - (course pf cmd).tolerance := h.ahead
    simp only [List.count_nil, Nat.cast_zero, add_zero, one_mul]
    exact hclose.trans (le_add_of_nonneg_right hstride.le)
  · rw [hahead]
    simp only [List.count_nil, Nat.cast_zero, zero_mul, sub_zero]
    exact h.enough
  · show Underway cmd w.history _ ((bus pf).publish (.autoDriveCommand cmd) _)
    rw [publish_sole pf (s := .autonomous) rfl, exec_autoDriveCommand pf h.nonempty]
    exact underway_start pf h.nonempty htime rfl rfl (List.suffix_cons _ _)

/-- Every tick is a round, in the order in which the subscribers are called. -/
theorem fair_inputOf (pf : Platform ℚ) (es : List (Event ℚ)) :
    Pursuit.Fair (es.flatMap (inputOf pf)) := by
  intro order horder
  obtain ⟨e, -, he⟩ := List.mem_flatMap.1 horder
  cases e with
  | tick now =>
      rw [Pursuit.Input.round.inj (List.mem_singleton.1 he)]
      exact orderOf_perm pf
  | datagram now m => cases m <;> simp [inputOf] at he

theorem rounds_inputOf (es : List (Event ℚ)) :
    Pursuit.rounds (es.flatMap (inputOf pf)) = ticks es := by
  induction es with
  | nil => rfl
  | cons e es ih =>
      rw [List.flatMap_cons, Pursuit.rounds, List.countP_append, ticks, List.countP_cons, add_comm]
      refine congrArg₂ (· + ·) ih ?_
      cases e with
      | tick now => rfl
      | datagram now m => cases m <;> rfl

/-- **A mission comes to its end.** A route whose nodes lie ahead, two ticks apart, with timeouts
    that last from one node to the next, is driven to its last node, whatever requests and
    environment data come in between: when the ticks cover the way, its completion was reported,
    the controller and the motor are off, `StateService` is ready, and the vehicle is at the last
    node, within the arrival tolerance before it and two ticks behind that. -/
theorem mission_completes (h : Drivable pf cmd w) (now : Nat) {es : List (Event ℚ)}
    (hes : ∀ e ∈ es, Harmless e)
    (hlong : (course pf cmd).target (cmd.numNodes - 1) - 1 / 10 + (course pf cmd).stride <
      w.kinematics.positionM + ticks es * (course pf cmd).stride) :
    let w' := run pf w (.datagram now (.autoDriveCommand cmd) :: es)
    ReportedSince cmd w.history w' ∧ w'.autonomous.routeActive = false ∧
      w'.motor.active = false ∧ w'.state.state = .ready ∧
      (course pf cmd).target (cmd.numNodes - 1) - 1 / 10 < w'.kinematics.positionM ∧
      w'.kinematics.positionM ≤
        (course pf cmd).target (cmd.numNodes - 1) - 1 / 10 + 2 * (course pf cmd).stride := by
  obtain ⟨hroute, hmirrors⟩ :=
    (chases_start h now).run h.passable h.fits h.untuned hes
  have hway : Pursuit.OnCourse (course pf cmd) [] (departure cmd w) :=
    (chases_start h now).1.resolve_right fun harrived => h.nonempty.ne harrived.done
  have harrived := Pursuit.run_arrives h.passable (fair_inputOf pf es) hway (by
    rw [rounds_inputOf]
    exact hlong)
  have hreached := harrived.reached
  have hnear := harrived.near
  rw [Pursuit.State.ahead, List.count_nil, Nat.cast_zero, zero_mul, add_zero] at hreached hnear
  cases hmirrors with
  | underway hleg _ => exact absurd harrived.done hleg.ne
  | ended _ hover =>
      intro w'
      have hready : w'.state.state = .ready := by
        rw [show w'.state = _ from hover.known]
        simp [StateService.stateFor, hover.stopped]
      refine ⟨hover.reported, hover.inactive, hover.stopped, hready, ?_, ?_⟩
      · rw [show w'.kinematics.positionM = _ from hover.position]
        exact hreached
      · rw [show w'.kinematics.positionM = _ from hover.position]
        exact hnear

end

/-- Nodes at one and at two metres, in eco mode. -/
def twoMetres : AutoDriveCommandPayload ℚ :=
  { mode := .eco, pGain := 1, useEnvironmentTuning := false, numNodes := 2
    route := fun i => ⟨⟨i.val + 1, 0⟩, 400⟩ }

theorem stride_twoMetres (pow : ℚ → ℚ → ℚ) :
    (course (.libstdcxx pow) twoMetres).stride = 3 / 40 := by
  have hspeed : cruiseRpm twoMetres = 750 := by decide +kernel
  simp only [course, hspeed, Platform.libstdcxx]
  norm_num

theorem target_twoMetres (pf : Platform ℚ) {i : Nat} (hi : i < 2) :
    (course pf twoMetres).target i = i + 1 := by
  simp only [course, StdArray.get?_of_lt twoMetres.route (show i < 8 by omega), Option.getD_some]
  rfl

theorem drivable_twoMetres (pow : ℚ → ℚ → ℚ) :
    Drivable (.libstdcxx pow) twoMetres World.init := by
  have hstride := stride_twoMetres pow
  have htarget (i : Nat) (hi : i < 2) := target_twoMetres (.libstdcxx pow) hi
  have hcost : (course (.libstdcxx pow) twoMetres).cost = 10000 := rfl
  have hlegs : (course (.libstdcxx pow) twoMetres).legs = 2 := rfl
  have htolerance : (course (.libstdcxx pow) twoMetres).tolerance = 1 / 10 := rfl
  have hgrant (i : Nat) (hi : i < 2) : (course (.libstdcxx pow) twoMetres).grant i = 400000 := by
    have htime : ∀ i < 2, legUs twoMetres i = 400000 := by decide +kernel
    simp only [course, htime i hi]
    norm_num
  have hstart : (World.init : World ℚ).kinematics.positionM = 0 := rfl
  have hseen : (World.init : World ℚ).autonomous.lastPosM = 0 := rfl
  refine ⟨by decide, by decide, rfl, ⟨?_, ?_, ?_, ?_, ?_⟩, ?_, ?_, ?_⟩
  · norm_num [hstride]
  · norm_num [hcost]
  · norm_num [htolerance]
  · intro i hi
    rw [hlegs] at hi
    rw [htarget i (by omega), htarget (i + 1) hi, hstride]
    push_cast
    linarith
  · intro i hi
    rw [hlegs] at hi
    rw [htarget i (by omega), htarget (i + 1) hi, hgrant (i + 1) hi, hstride, hcost, htolerance]
    push_cast
    linarith
  · norm_num [htarget, hseen]
  · norm_num [htarget, hstart]
  · norm_num [htarget, hstart, hgrant, hstride, hcost]

theorem twoMetres_completes :
    let es := .datagram 0 .kinematicsRequest :: .datagram 0 .stateRequest ::
      List.replicate 30 (.tick 0)
    let w := run (.libstdcxx fun _ _ => 0) World.init
      (.datagram 0 (.autoDriveCommand twoMetres) :: es)
    ReportedSince twoMetres [] w ∧ w.autonomous.routeActive = false ∧ w.motor.active = false ∧
      w.state.state = .ready ∧ 2 - 1 / 10 < w.kinematics.positionM ∧
      w.kinematics.positionM ≤ 2 - 1 / 10 + 2 * (3 / 40) := by
  intro es w
  have hharmless : ∀ e ∈ es, Harmless e := by
    intro e he
    simp only [es, List.mem_cons, List.mem_replicate] at he
    rcases he with rfl | rfl | ⟨-, rfl⟩
    · exact ⟨by decide, by decide⟩
    · exact ⟨by decide, by decide⟩
    · trivial
  have hlast :
      (course (.libstdcxx fun _ _ => 0) twoMetres).target (twoMetres.numNodes - 1) = 2 := by
    rw [show twoMetres.numNodes - 1 = 1 from rfl, target_twoMetres _ (by decide)]
    norm_num
  have hcompletes := mission_completes (drivable_twoMetres fun _ _ => 0) 0 hharmless (by
    rw [hlast, stride_twoMetres, show ticks es = 30 from rfl]
    norm_num [World.init, KinematicsService.init])
  simp only [hlast, stride_twoMetres] at hcompletes
  dsimp only [w]
  exact hcompletes

end App

end ReflectPytest
