import ReflectPytest.MotorCore

set_option autoImplicit false

/-! # What single events do to the motor

An event is handled to completion, nested publishes included. As long as no `MotorSequence` is
published on the way, a datagram leaves the motor, the lifecycle and the position alone, and a tick
changes them as the handlers of `MotorService` and `KinematicsService` say, in whatever order the
subscribers are called. -/

namespace ReflectPytest

open SyncBus FloatOps

variable {F : Type} [FloatOps F]

namespace App

/-! ## Sequences in the history -/

/-- A `MotorSequence` was published since the history was `h₀`. -/
def SequenceSince (h₀ : List (Record F)) (w : World F) : Prop :=
  ∃ l cmd, w.history = l ++ h₀ ∧ .published (.motorSequence cmd) ∈ l

omit [FloatOps F] in
theorem SequenceSince.later {h₀ : List (Record F)} {w w' : World F} (h : SequenceSince h₀ w)
    (hle : w.history <:+ w'.history) : SequenceSince h₀ w' := by
  obtain ⟨l, cmd, heq, hmem⟩ := h
  obtain ⟨k, hk⟩ := hle
  exact ⟨k ++ l, cmd, by rw [← hk, heq, List.append_assoc], List.mem_append_right _ hmem⟩

omit [FloatOps F] in
/-- Since then, and since any earlier time. -/
theorem SequenceSince.earlier {h₀ h₁ : List (Record F)} {w : World F} (h : SequenceSince h₁ w)
    (hle : h₀ <:+ h₁) : SequenceSince h₀ w := by
  obtain ⟨l, cmd, heq, hmem⟩ := h
  obtain ⟨k, rfl⟩ := hle
  exact ⟨l ++ k, cmd, by rw [heq, List.append_assoc], List.mem_append_left _ hmem⟩

/-- The record of a `MotorSequence`. -/
def isSequence : Record F → Bool
  | .published m => decide (m.id = .motorSequence)
  | .snapshot _ => false

omit [FloatOps F] in
theorem not_sequenceSince {h₀ : List (Record F)} {w : World F}
    (h : (w.history.take (w.history.length - h₀.length)).all (fun r => !isSequence r) = true) :
    ¬ SequenceSince h₀ w := by
  rintro ⟨l, cmd, heq, hmem⟩
  have htake : w.history.take (w.history.length - h₀.length) = l := by
    rw [heq, List.length_append, Nat.add_sub_cancel, List.take_left']
    rfl
  rw [htake] at h
  exact absurd (List.all_eq_true.1 h _ hmem) (by simp [isSequence, Msg.id])

/-! ## Messages that leave the motor alone -/

/-- The motor, the lifecycle and the position. -/
def core (w : World F) : MotorService × StateService × F :=
  (w.motor, w.state, w.kinematics.positionM)

omit [FloatOps F] in
theorem core_eq_iff {w : World F} {m : MotorService} {s : StateService} {p : F} :
    core w = (m, s, p) ↔ w.motor = m ∧ w.state = s ∧ w.kinematics.positionM = p := by
  simp [core]

/-- Since `h₀` either a sequence was published or the core has stayed `x`. -/
def CoreSince (h₀ : List (Record F)) (x : MotorService × StateService × F) (w : World F) : Prop :=
  h₀ <:+ w.history ∧ (SequenceSince h₀ w ∨ core w = x)

/-- Statuses follow sequences; ticks come from the clock only. -/
def Allowed (h₀ : List (Record F)) (m : Msg F) (w : World F) : Prop :=
  m.id ≠ .physicsTick ∧ (m.id = .motorStatus → SequenceSince h₀ w)

/-- What is known of a message once it is recorded. -/
def Recorded (h₀ : List (Record F)) (m : Msg F) (w : World F) : Prop :=
  m.id ≠ .physicsTick ∧ (m.id = .motorStatus ∨ m.id = .motorSequence → SequenceSince h₀ w)

section Keeps

variable {h₀ : List (Record F)} {x : MotorService × StateService × F}

omit [FloatOps F] in
theorem Inert.keeps {code : Code (World F) (Msg F)} (hcode : Inert code) {A : World F → Prop} :
    code.Keeps (CoreSince h₀ x) (Allowed h₀) A := by
  obtain ⟨hemits, hgrows⟩ := hcode
  induction code with
  | done => trivial
  | step run next ih =>
      refine ⟨fun w _ hw => ⟨?_, fun m hm => ?_⟩, fun w => ih w (hemits.2 w) (hgrows.2 w)⟩
      · have hsame := hgrows.1 w
        have hcore : core (run w).1 = core w := by
          rw [core, core, hsame.motor, hsame.state, hsame.kinematics]
        exact ⟨by rw [hsame.history]; exact hw.1,
          hw.2.imp (fun h => h.later (by rw [hsame.history])) hcore.trans⟩
      · exact ⟨(hemits.1 w m hm).2, fun he => absurd he (hemits.1 w m hm).1⟩

omit [FloatOps F] in
/-- Once a sequence was published there is nothing left to keep. -/
theorem keeps_of_sequence {code : Code (World F) (Msg F)}
    (hgrows : code.Grows fun w w' => w'.history = w.history)
    (hemits : code.Emits fun m => m.id ≠ .physicsTick) {A : World F → Prop}
    (hA : ∀ w, A w → SequenceSince h₀ w) : code.Keeps (CoreSince h₀ x) (Allowed h₀) A := by
  induction code with
  | done => trivial
  | step run next ih =>
      refine ⟨fun w hw hc => ?_, fun w => ih w (hgrows.2 w) (hemits.2 w)⟩
      have hseq : SequenceSince h₀ (run w).1 := (hA w hw).later (by rw [hgrows.1 w])
      refine ⟨⟨?_, Or.inl hseq⟩, fun m hm => ⟨hemits.1 w m hm, fun _ => hseq⟩⟩
      rw [hgrows.1 w]
      exact hc.1

theorem emits_no_tick (pf : Platform F) (h : Service) (m : Msg F) :
    (code pf h m).Emits fun m' => m'.id ≠ .physicsTick := by
  have hnone : ∀ id, ∀ id' ∈ h.answers id, id' ≠ .physicsTick := by
    intro id
    cases h <;> cases id <;> decide
  exact (code_emits pf h m).mono (fun _ => hnone m.id _)

/-- The handlers that touch the core are those of ticks, sequences and statuses. -/
theorem of_touchesCore {h : Service} {id : MsgId} (hsub : id ∈ h.subscribes)
    (ht : touchesCore h id = true) :
    id = .physicsTick ∨ id = .motorStatus ∨ id = .motorSequence := by
  revert hsub ht
  cases h <;> cases id <;> decide

/-- **An allowed publish keeps the core** unless a sequence is published on the way. -/
theorem publish_coreSince (pf : Platform F) {m : Msg F} {w : World F} (hm : Allowed h₀ m w)
    (hw : CoreSince h₀ x w) : CoreSince h₀ x ((bus pf).publish m w) := by
  have hpre : ∀ m (w w' : World F), w.history <:+ w'.history → Allowed h₀ m w → Allowed h₀ m w' :=
    fun m w w' hle h => ⟨h.1, fun he => (h.2 he).later hle⟩
  have hrec : ∀ m (w w' : World F), w.history <:+ w'.history → Recorded h₀ m w →
      Recorded h₀ m w' := fun m w w' hle h => ⟨h.1, fun he => (h.2 he).later hle⟩
  refine Bus.publish_keeps (bus_grows pf) hpre hrec (fun m h hh => ?_)
    (fun m w hpre hI => ?_) m w hm
    hw
  · show (code pf h m).Keeps (CoreSince h₀ x) (Allowed h₀) (Recorded h₀ m)
    cases ht : touchesCore h m.id with
    | false => exact (code_inert pf ht).keeps
    | true =>
        refine keeps_of_sequence (code_grows_history pf h m) (emits_no_tick pf h m) fun w hrec => ?_
        rcases of_touchesCore (mem_subscribers.1 hh) ht with he | he | he
        · exact absurd he hrec.1
        · exact hrec.2 (Or.inl he)
        · exact hrec.2 (Or.inr he)
  · obtain ⟨k, hk⟩ := hI.1
    have hle : w.history <:+ ((bus pf).record m w).history := List.suffix_cons _ _
    refine ⟨⟨hI.1.trans hle, hI.2.imp_left fun h => h.later hle⟩, hpre.1, fun he => ?_⟩
    rcases he with he | he
    · exact (hpre.2 he).later hle
    · cases m <;> simp only [Msg.id, reduceCtorEq] at he
      next cmd =>
      exact ⟨.published (.motorSequence cmd) :: k, cmd,
        congrArg (Record.published (.motorSequence cmd) :: ·) hk.symm, List.mem_cons_self⟩

/-- Running inert code keeps the core unless a sequence is published on the way. -/
theorem exec_coreSince (pf : Platform F) {h : Service} {m : Msg F}
    (ht : touchesCore h m.id = false) {w : World F} (hw : CoreSince h₀ x w) :
    CoreSince h₀ x ((code pf h m).exec (bus pf).publish w) := by
  have hinert := code_inert pf ht
  refine Code.exec_keeps (bus_grows pf).refl (bus_grows pf).trans ?_ (fun _ _ _ h => h)
    (bus_grows pf).publish (fun m' _ w hpre hI => publish_coreSince pf hpre hI) _ hinert.emits
    ((bus_grows pf).code h m) (hinert.keeps (A := fun _ => True)) w trivial hw
  exact fun m w w' hle hpre => ⟨hpre.1, fun he => (hpre.2 he).later hle⟩

end Keeps

/-! ## Statuses -/

/-- **Publishing a status** gives it to `StateService` and moves nothing. -/
theorem publish_motorStatus (pf : Platform F) (ms : MotorStatusPayload) (w : World F) :
    core ((bus pf).publish (.motorStatus ms) w) =
      (w.motor, w.state.onMotorStatus ms, w.kinematics.positionM) := by
  have hmem : Service.state ∈ (bus pf).subscribers (.motorStatus ms) :=
    mem_subscribers.2 (by simp [Service.subscribes, Msg.id])
  rw [Bus.publish_eq]
  exact Bus.foldl_once core (fun x => (x.1, x.2.1.onMotorStatus ms, x.2.2)) (fun _ => True)
    (fun _ => False) (fun _ _ h => h) (fun _ _ h => h) (fun _ _ _ => rfl)
    (subscribers_nodup pf _) hmem
    (fun h hh hne w _ _ => by
      cases h
      case state => exact absurd rfl hne
      case kinematics =>
        exact congrArg (fun p => (w.motor, w.state, p)) (w.kinematics.onMotorStatus_positionM ms)
      all_goals rfl) _ trivial id

/-! ## Events -/

/-- **A command** goes to the motor, and its status to `StateService`. -/
theorem publish_motorSequence (pf : Platform F) (cmd : MotorSequencePayload) (w : World F) :
    core ((bus pf).publish (.motorSequence cmd) w) =
      ((w.motor.onMotorSequence cmd).1,
        w.state.onMotorStatus (w.motor.onMotorSequence cmd).1.status, w.kinematics.positionM) := by
  have hsubs : (bus pf).subscribers (.motorSequence cmd) = [.motor] :=
    List.perm_singleton.1 (subscribers_perm pf (.motorSequence cmd))
  simp only [Bus.publish_eq, Bus.deliver, hsubs, List.foldl_cons, List.foldl_nil]
  rw [← MotorService.onMotorSequence_status]
  exact publish_motorStatus pf _ _

omit [FloatOps F] in
/-- Anything else the bridge accepts is allowed at any time. -/
theorem allowed_datagram {h₀ : List (Record F)} {m : Msg F} (hauth : authorized m = true)
    (w : World F) : Allowed h₀ m w := by
  have hmem := of_decide_eq_true hauth
  constructor
  · intro he
    rw [he] at hmem
    exact absurd hmem (by decide)
  · intro he
    rw [he] at hmem
    exact absurd hmem (by decide)

/-- **A datagram** on whose behalf no sequence is published leaves the core alone. -/
theorem step_datagram (pf : Platform F) (w : World F) (now : Nat) (m : Msg F)
    (hquiet : ¬ SequenceSince w.history (step pf w (.datagram now m))) :
    core (step pf w (.datagram now m)) = core w := by
  simp only [step] at hquiet ⊢
  split at hquiet
  · next hauth =>
      rw [if_pos hauth]
      have hstart : CoreSince w.history (core w) { w with now := now } :=
        ⟨List.suffix_rfl, Or.inr rfl⟩
      exact (publish_coreSince pf (allowed_datagram hauth _) hstart).2.resolve_left hquiet
  · next hauth =>
      rw [if_neg hauth]
      rfl

/-- What a status changes in the lifecycle, if there is one. -/
def announced (s : StateService) : Option MotorStatusPayload → StateService
  | some ms => s.onMotorStatus ms
  | none => s

/-- `MotorService` handling a tick. -/
theorem exec_motorTick (pf : Platform F) (tick : PhysicsTickPayload) (w : World F) :
    core ((code pf .motor (.physicsTick tick)).exec (bus pf).publish w) =
      ((w.motor.onPhysicsTick tick).1, announced w.state (w.motor.onPhysicsTick tick).2,
        w.kinematics.positionM) := by
  simp only [code, Code.exec_single]
  cases hms : (w.motor.onPhysicsTick tick).2 with
  | none => simp [core, announced]
  | some ms => exact publish_motorStatus pf ms _

/-- A handler of a tick outside the two services leaves the core alone. -/
theorem exec_tick_core (pf : Platform F) {h₀ : List (Record F)} {h : Service}
    {tick : PhysicsTickPayload} (hmotor : h ≠ .motor) (hkin : h ≠ .kinematics) {w : World F}
    (hle : h₀ <:+ w.history)
    (hquiet : ¬ SequenceSince h₀ ((code pf h (.physicsTick tick)).exec (bus pf).publish w)) :
    core ((code pf h (.physicsTick tick)).exec (bus pf).publish w) = core w := by
  have ht : touchesCore h (Msg.physicsTick tick : Msg F).id = false := by
    cases h <;> first | exact absurd rfl hmotor | exact absurd rfl hkin | rfl
  exact (exec_coreSince pf ht ⟨hle, Or.inr rfl⟩).2.resolve_left hquiet

/-- **A tick** during whose dispatch no sequence is published advances the motor and the position
    once, whatever the order of the subscribers. -/
theorem publish_tick (pf : Platform F) (tick : PhysicsTickPayload) (w : World F)
    (hquiet : ¬ SequenceSince w.history ((bus pf).publish (.physicsTick tick) w)) :
    core ((bus pf).publish (.physicsTick tick) w) =
      ((w.motor.onPhysicsTick tick).1, announced w.state (w.motor.onPhysicsTick tick).2,
        (w.kinematics.onPhysicsTick tick).positionM) := by
  rw [Bus.publish_eq] at hquiet ⊢
  have hnodup := subscribers_nodup pf (Msg.physicsTick tick)
  have hmem : ∀ h : Service, h = .motor ∨ h = .kinematics →
      h ∈ (bus pf).subscribers (.physicsTick tick) := by
    rintro h (rfl | rfl) <;> exact mem_subscribers.2 (by simp [Service.subscribes, Msg.id])
  have hgrow : ∀ h (v : World F), v.history <:+
      ((code pf h (.physicsTick tick)).exec (bus pf).publish v).history := fun h v =>
    Code.exec_grows (bus_grows pf).refl (bus_grows pf).trans (bus_grows pf).publish _
      ((bus_grows pf).code h _) v
  have honce {X : Type} (view : World F → X) (g : X → X) {h₀ : Service}
      (hh₀ : h₀ = .motor ∨ h₀ = .kinematics)
      (hself : ∀ v, view ((code pf h₀ (.physicsTick tick)).exec (bus pf).publish v) = g (view v))
      (hothers : ∀ h ≠ h₀, ∀ v, w.history <:+ v.history → ¬ SequenceSince w.history
        ((code pf h (.physicsTick tick)).exec (bus pf).publish v) →
        view ((code pf h (.physicsTick tick)).exec (bus pf).publish v) = view v) :=
    Bus.foldl_once view g (fun v => w.history <:+ v.history) (SequenceSince w.history)
      (fun h v hle => hle.trans (hgrow h v)) (fun h v hs => hs.later (hgrow h v))
      (fun v _ _ => hself v) hnodup (hmem h₀ hh₀) (fun h _ hne v hle hq => hothers h hne v hle hq)
      ((bus pf).record (.physicsTick tick) w) (List.suffix_cons _ _) hquiet
  have hmotor := honce (fun v => (v.motor, v.state))
    (fun x => ((x.1.onPhysicsTick tick).1, announced x.2 (x.1.onPhysicsTick tick).2)) (Or.inl rfl)
    (fun v => by
      obtain ⟨hm, hs, -⟩ := core_eq_iff.1 (exec_motorTick pf tick v)
      exact Prod.ext hm hs)
    (fun h hne v hle hq => by
      by_cases hkin : h = .kinematics
      · subst hkin
        rfl
      · obtain ⟨hm, hs, -⟩ := core_eq_iff.1 (exec_tick_core pf hne hkin hle hq)
        exact Prod.ext hm hs)
  have hposition := honce (fun v => v.kinematics.positionM)
    (fun x => x + ofInt tick.speedRpm * kRpmToMps * tick.dtS) (Or.inr rfl) (fun _ => rfl)
    (fun h hne v hle hq => by
      by_cases hm : h = .motor
      · subst hm
        exact (core_eq_iff.1 (exec_motorTick pf tick v)).2.2
      · exact (core_eq_iff.1 (exec_tick_core pf hm hne hle hq)).2.2)
  exact core_eq_iff.2 ⟨congrArg Prod.fst hmotor, congrArg Prod.snd hmotor, hposition⟩

/-- The clock's event: the snapshot is handled as a tick. -/
theorem step_tick (pf : Platform F) (w : World F) (now : Nat)
    (hquiet : ¬ SequenceSince w.history (step pf w (.tick now))) :
    core (step pf w (.tick now)) =
      ((w.motor.onPhysicsTick (w.state.snapshot pf.kTickUs)).1,
        announced w.state (w.motor.onPhysicsTick (w.state.snapshot pf.kTickUs)).2,
        (w.kinematics.onPhysicsTick (w.state.snapshot pf.kTickUs)).positionM) :=
  publish_tick pf _ _ fun h => hquiet (h.earlier (List.suffix_cons _ _))

/-- Handling an event only adds to the history. -/
theorem step_history (pf : Platform F) (w : World F) (e : Event F) :
    w.history <:+ (step pf w e).history := by
  cases e with
  | tick now =>
      exact (List.suffix_cons _ _).trans ((bus_grows pf).publish
        (.physicsTick (w.state.snapshot pf.kTickUs)) (takeSnapshot pf { w with now := now }).1)
  | datagram now m =>
      simp only [step]
      split
      · exact (bus_grows pf).publish m { w with now := now }
      · exact List.suffix_rfl

theorem run_history (pf : Platform F) (w : World F) (es : List (Event F)) :
    w.history <:+ (run pf w es).history :=
  List.foldlRecOn (motive := fun w' => w.history <:+ w'.history) es _ List.suffix_rfl
    fun w' hw' e _ => hw'.trans (step_history pf w' e)

end App

end ReflectPytest
