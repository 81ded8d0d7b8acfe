import ReflectPytest.Environment.RegionMap
import ReflectPytest.Sequential.Queries
import ReflectPytest.Autonomous.StopInForce

set_option autoImplicit false

/-! # What the controller and the cache say about one point

`EnvironmentService` decides containment on both coordinates, in the order of its cache.
`AutonomousService` asks it only when the x coordinate leaves the region it holds. A region may be
overwritten while it is held, and then its y range need no longer contain the track: the sample sits
in a blind spot. `run_covered_iff` says that this is all that keeps the two from agreeing. -/

namespace ReflectPytest

open SyncBus FloatOps

variable {F : Type}

/-- The two services, with the pointer of one into the cache of the other. -/
structure Navigation (F : Type) where
  autonomous : AutonomousService F
  environment : EnvironmentService F

namespace Navigation

/-- A message delivered to one of the services from outside. -/
inductive Input (F : Type) where
  | environmentData (env : EnvironmentPayload F)
  | autoDriveCommand (cmd : AutoDriveCommandPayload F)
  | powerData (power : PowerPayload F)
  | kinematicsData (kin : KinematicsPayload F)

/-- The point `(x, 0)` is in a region of the cache. -/
def Known (n : Navigation F) [FloatOps F] (x : F) : Prop :=
  ∃ env ∈ n.environment.cache, env.bounds.contains x 0 = true

/-- The controller holds a region, and the point is in it. -/
def Covered (n : Navigation F) [FloatOps F] (x : F) : Prop :=
  ∃ p ∈ n.autonomous.currentEnvPtr, ∃ env, n.environment.cache[p]? = some env ∧
    env.bounds.contains x 0 = true

instance (n : Navigation F) [FloatOps F] (x : F) : Decidable (n.Known x) :=
  inferInstanceAs (Decidable (∃ env ∈ n.environment.cache, env.bounds.contains x 0 = true))

instance (n : Navigation F) [FloatOps F] (x : F) : Decidable (n.Covered x) :=
  decidable_of_iff (n.autonomous.currentEnvPtr.any fun p =>
    n.environment.cache[p]?.any fun env => env.bounds.contains x 0) (by
      simp [Covered, Option.any_eq_true])

/-- A route is being driven, and its command asks for tuning. -/
def Tuned (n : Navigation F) : Prop :=
  n.autonomous.routeActive = true ∧ n.autonomous.cmd.useEnvironmentTuning = true

instance (n : Navigation F) : Decidable n.Tuned := inferInstanceAs (Decidable (_ ∧ _))

/-- A known point is in the x range of the region held, and still not in the region. -/
def BlindSpot (n : Navigation F) [FloatOps F] (x : F) : Prop :=
  n.Known x ∧ ∃ p ∈ n.autonomous.currentEnvPtr, ∃ env, n.environment.cache[p]? = some env ∧
    lt x env.bounds.minPt.x = false ∧ lt env.bounds.maxPt.x x = false ∧
    env.bounds.contains x 0 = false

variable [FloatOps F]

def init : Navigation F := ⟨.init, .init⟩

/-- The pointers an `EnvironmentService` sends back. -/
def replies (ms : List (Msg F)) : List InternalEnvDataPayload :=
  ms.filterMap fun
    | .internalEnvData env => some env
    | _ => none

/-- The sample is not dropped, and the controller asks for environment data. -/
def asks (n : Navigation F) (kin : KinematicsPayload F) : Bool :=
  !n.autonomous.idle && n.autonomous.needsEnvironment n.environment.deref kin.positionM

/-- `EnvironmentService` on the request of a sample, if the sample makes one. -/
def answer (n : Navigation F) (now : Nat) (kin : KinematicsPayload F) :
    EnvironmentService F × List (Msg F) :=
  if n.asks kin then n.environment.onInternalEnvRequest now ⟨kin.positionM, 0⟩
  else (n.environment, [])

/-- Both services on a sample: its request is handled in the middle of it. -/
def onKinematicsData (n : Navigation F) (now : Nat) (kin : KinematicsPayload F) : Navigation F :=
  ⟨(n.autonomous.onKinematicsData n.environment.deref kin (replies (n.answer now kin).2)).1,
    (n.answer now kin).1⟩

/-- Deliver one message. -/
def step (n : Navigation F) (now : Nat) : Input F → Navigation F
  | .environmentData env => { n with environment := (n.environment.onEnvironmentData env).1 }
  | .autoDriveCommand cmd =>
      { n with autonomous := (n.autonomous.onAutoDriveCommand n.environment.deref cmd).1 }
  | .powerData power => { n with autonomous := n.autonomous.onPowerData power }
  | .kinematicsData kin => n.onKinematicsData now kin

/-- Deliver a history of messages. -/
def run (n : Navigation F) (history : List (Nat × Input F)) : Navigation F :=
  history.foldl (fun n i => n.step i.1 i.2) n

theorem run_concat (n : Navigation F) (pre : List (Nat × Input F)) (i : Nat × Input F) :
    n.run (pre ++ [i]) = (n.run pre).step i.1 i.2 := by
  simp [run]

/-- A request leaves the cache alone. -/
theorem onInternalEnvRequest_cache (s : EnvironmentService F) (now : Nat)
    (req : InternalEnvRequestPayload F) : (s.onInternalEnvRequest now req).1.cache = s.cache := by
  unfold EnvironmentService.onInternalEnvRequest
  split
  · rfl
  · split <;> rfl

theorem answer_cache (n : Navigation F) (now : Nat) (kin : KinematicsPayload F) :
    (n.answer now kin).1.cache = n.environment.cache := by
  unfold answer
  split
  · exact onInternalEnvRequest_cache _ _ _
  · rfl

theorem answer_deref (n : Navigation F) (now : Nat) (kin : KinematicsPayload F) :
    (n.answer now kin).1.deref = n.environment.deref := by
  funext p
  unfold EnvironmentService.deref
  rw [answer_cache]

/-- What comes back for a request is the first hit. -/
theorem replies_onInternalEnvRequest (s : EnvironmentService F) (now : Nat)
    (req : InternalEnvRequestPayload F) :
    replies (s.onInternalEnvRequest now req).2 =
      (s.lookup req).toList.map InternalEnvDataPayload.mk := by
  unfold EnvironmentService.onInternalEnvRequest
  split
  · next hp => rw [hp]; rfl
  · next hnone =>
      rw [hnone]
      split <;> rfl

/-! ## The handlers of the application

Each message delivered on the bus does to the two services what `step` says. -/

/-- The two services in the application. -/
def of (w : World F) : Navigation F := ⟨w.autonomous, w.environment⟩

/-- The message of an input. -/
def Input.msg : Input F → Msg F
  | .environmentData env => .environmentData env
  | .autoDriveCommand cmd => .autoDriveCommand cmd
  | .powerData power => .powerData power
  | .kinematicsData kin => .kinematicsData kin

/-- Neither service does anything about the message, nor about what follows from it. -/
def Quiet (m : Msg F) : Prop :=
  m.id ∈ [MsgId.motorSequence, .motorStatus, .autoDriveStatus, .environmentAck,
    .environmentRequest]

theorem publish_quiet (pf : Platform F) {m : Msg F} (hm : Quiet m) (w : World F) :
    of ((App.bus pf).publish m w) = of w := by
  refine Bus.publish_preserves (App.bus pf) (C := Quiet) (I := fun w' => of w' = of w)
    (fun m hm h _ => ?_) (fun m hm h _ => ?_) (fun _ _ _ hw => hw) m hm w rfl
  · have hquiet : ∀ id ∈ [MsgId.motorSequence, .motorStatus, .autoDriveStatus, .environmentAck,
        .environmentRequest], ∀ id' ∈ h.answers id, id' ∈ [MsgId.motorSequence, .motorStatus,
          .autoDriveStatus, .environmentAck, .environmentRequest] := by
      cases h <;> decide
    exact (App.code_emits pf h m).mono fun _ hid => hquiet _ hm _ hid
  · cases h <;> cases m <;> first
      | exact trivial
      | exact (Code.preserves_single _ _).2 fun _ hw => hw
      | simp [Quiet, Msg.id] at hm

theorem publish_all_quiet (pf : Platform F) {ms : List (Msg F)} (hms : ∀ m ∈ ms, Quiet m)
    (w : World F) : of (ms.foldl (fun w m => (App.bus pf).publish m w) w) = of w := by
  induction ms generalizing w with
  | nil => rfl
  | cons m ms ih =>
      exact (ih (fun m' hm' => hms m' (List.mem_cons_of_mem _ hm')) _).trans
        (publish_quiet pf (hms m List.mem_cons_self) w)

theorem quiet_onInternalEnvData (deref : EnvPtr → EnvironmentPayload F) (s : AutonomousService F)
    (env : InternalEnvDataPayload) : ∀ m ∈ messages (s.onInternalEnvData deref env).2, Quiet m := by
  intro m hm
  have hid := App.publishesOnly_onInternalEnvData deref s env m hm
  simp only [Quiet, List.mem_singleton.1 hid]
  decide

theorem quiet_onAutoDriveCommand (deref : EnvPtr → EnvironmentPayload F) (s : AutonomousService F)
    (cmd : AutoDriveCommandPayload F) :
    ∀ m ∈ messages (s.onAutoDriveCommand deref cmd).2, Quiet m := by
  intro m hm
  have hid := App.publishesOnly_motorSequence deref (s.acceptCommand cmd) m hm
  simp only [Quiet, List.mem_singleton.1 hid]
  decide

theorem quiet_checkNode (deref : EnvPtr → EnvironmentPayload F) (s : AutonomousService F)
    (idx : Nat) (kin : KinematicsPayload F) :
    ∀ m ∈ messages (s.checkNode deref idx kin).2, Quiet m := by
  have hquiet : ∀ id ∈ [MsgId.autoDriveStatus, .motorSequence], id ∈ [MsgId.motorSequence,
      .motorStatus, .autoDriveStatus, .environmentAck, .environmentRequest] := by decide
  exact fun m hm => hquiet _ (App.publishesOnly_checkNode deref s idx kin m hm)

/-- The controller gets a region, and sends its motor commands on. -/
theorem publish_internalEnvData (pf : Platform F) (env : InternalEnvDataPayload) (w : World F) :
    of ((App.bus pf).publish (.internalEnvData env) w) =
      ⟨(w.autonomous.onInternalEnvData w.environment.deref env).1, w.environment⟩ := by
  rw [App.publish_sole pf (s := .autonomous) rfl]
  exact publish_all_quiet pf (quiet_onInternalEnvData _ _ env) _

/-- The regions among the messages reach the controller, one after another. -/
theorem publish_answers (pf : Platform F) {ms : List (Msg F)}
    (hms : ∀ m ∈ ms, (∃ env, m = .internalEnvData env) ∨ Quiet m) (w : World F) :
    of (ms.foldl (fun w m => (App.bus pf).publish m w) w) =
      ⟨(w.autonomous.onReplies w.environment.deref (replies ms)).1, w.environment⟩ := by
  induction ms generalizing w with
  | nil => rfl
  | cons m ms ih =>
      have hrest := ih (fun m' hm' => hms m' (List.mem_cons_of_mem _ hm'))
        ((App.bus pf).publish m w)
      rcases hms m List.mem_cons_self with ⟨env, rfl⟩ | hquiet
      · obtain ⟨hautonomous, henvironment⟩ := Navigation.mk.inj (publish_internalEnvData pf env w)
        rw [List.foldl_cons, hrest, hautonomous, henvironment]
        rfl
      · obtain ⟨hautonomous, henvironment⟩ := Navigation.mk.inj (publish_quiet pf hquiet w)
        have hnone : replies (m :: ms) = replies ms := by
          cases m <;> first
            | rfl
            | simp [Quiet, Msg.id] at hquiet
        rw [List.foldl_cons, hrest, hnone, hautonomous, henvironment]

/-- A request reaches `EnvironmentService`, and its answer the controller. -/
theorem publish_internalEnvRequest (pf : Platform F) (req : InternalEnvRequestPayload F)
    (w : World F) : of ((App.bus pf).publish (.internalEnvRequest req) w) =
      ⟨(w.autonomous.onReplies w.environment.deref
          (replies (w.environment.onInternalEnvRequest w.now req).2)).1,
        (w.environment.onInternalEnvRequest w.now req).1⟩ := by
  rw [App.publish_sole pf (s := .environment) rfl]
  have hanswers : ∀ m ∈ (w.environment.onInternalEnvRequest w.now req).2,
      (∃ env, m = .internalEnvData env) ∨ Quiet m := by
    unfold EnvironmentService.onInternalEnvRequest
    intro m hm
    split at hm
    · exact .inl ⟨_, List.mem_singleton.1 hm⟩
    · split at hm
      · obtain rfl := List.mem_singleton.1 hm
        exact .inr (by simp [Quiet, Msg.id])
      · exact absurd hm List.not_mem_nil
  obtain ⟨hautonomous, henvironment⟩ := Navigation.mk.inj
    (publish_answers pf hanswers ((App.bus pf).record (.internalEnvRequest req) w))
  simp only [App.code, Code.exec, EnvironmentService.answerRequest_eq]
  rw [← EnvironmentService.setRequestTime_eq w req,
    show App.missesEnvironment req ((App.bus pf).record (.internalEnvRequest req) w) =
      App.missesEnvironment req w from rfl]
  split
  · exact congr (congrArg Navigation.mk hautonomous)
      (congrArg (fun e => { e with lastRequestTime := w.now }) henvironment)
  · exact congr (congrArg Navigation.mk hautonomous) henvironment

/-- The request of a sample, if it makes one, is answered before the sample is checked. -/
theorem publish_request (pf : Platform F) (kin : KinematicsPayload F) {w : World F}
    (hidle : w.autonomous.idle = false) :
    of ((messages (w.autonomous.requestEnvironment w.environment.deref kin)).foldl
        (fun w m => (App.bus pf).publish m w) w) =
      ⟨(w.autonomous.answered w.environment.deref kin (replies ((of w).answer w.now kin).2)).1,
        ((of w).answer w.now kin).1⟩ := by
  have hasks : (of w).asks kin =
      w.autonomous.needsEnvironment w.environment.deref kin.positionM := by simp [asks, of, hidle]
  unfold answer AutonomousService.requestEnvironment AutonomousService.answered
  rw [hasks]
  split
  · exact publish_internalEnvRequest pf ⟨kin.positionM, 0⟩ w
  · rfl

/-- The rest of the sample. -/
theorem exec_check (pf : Platform F) (idx : Nat) (kin : KinematicsPayload F) (w : World F) :
    of ((Code.step (App.checkStretch idx kin) fun _ => App.update (App.rememberStretch kin)).exec
        (App.bus pf).publish w) =
      ⟨(w.autonomous.checkNode w.environment.deref idx kin).1.rememberPosition kin,
        w.environment⟩ := by
  have hpublished := publish_all_quiet pf
    (quiet_checkNode w.environment.deref w.autonomous idx kin) (App.checkStretch idx kin w).1
  exact congrArg
    (fun n : Navigation F => Navigation.mk (n.autonomous.rememberPosition kin) n.environment)
    hpublished

/-- **The controller on a sample**, with everything the sample causes. -/
theorem publish_kinematicsData (pf : Platform F) (kin : KinematicsPayload F) (w : World F) :
    of ((App.bus pf).publish (.kinematicsData kin) w) = (of w).onKinematicsData w.now kin := by
  rw [App.publish_sole pf (s := .autonomous) rfl]
  show of ((App.code pf .autonomous (.kinematicsData kin)).exec (App.bus pf).publish
      ((App.bus pf).record (.kinematicsData kin) w)) =
    (of ((App.bus pf).record (.kinematicsData kin) w)).onKinematicsData
      ((App.bus pf).record (.kinematicsData kin) w).now kin
  generalize (App.bus pf).record (.kinematicsData kin) w = w
  simp only [App.code, Code.exec, App.requestStretch]
  cases hidle : w.autonomous.idle with
  | true => simp [onKinematicsData, answer, asks, of, hidle, AutonomousService.onKinematicsData]
  | false =>
      obtain ⟨hautonomous, henvironment⟩ := Navigation.mk.inj (publish_request pf kin hidle)
      refine (exec_check pf _ kin _).trans ?_
      simp only [Bool.false_eq_true, if_false]
      rw [hautonomous, henvironment, answer_deref, onKinematicsData,
        AutonomousService.onKinematicsData_eq _ (of w).autonomous _ _ hidle]
      rfl

/-- **The model is the application's**: a message published on the bus does to the two services
    what `step` says. -/
theorem publish_step (pf : Platform F) (i : Input F) (w : World F) :
    of ((App.bus pf).publish i.msg w) = (of w).step w.now i := by
  cases i with
  | kinematicsData kin => exact publish_kinematicsData pf kin w
  | powerData power =>
      rw [App.publish_sole pf (s := .autonomous) rfl]
      rfl
  | autoDriveCommand cmd =>
      rw [App.publish_sole pf (s := .autonomous) rfl]
      exact publish_all_quiet pf (quiet_onAutoDriveCommand _ _ cmd) _
  | environmentData env =>
      have hmem : Service.environment ∈ (App.bus pf).subscribers (.environmentData env) :=
        App.mem_subscribers.2 (by simp [Service.subscribes, Msg.id])
      rw [Input.msg, Bus.publish_eq]
      refine Bus.foldl_once of (fun n => n.step w.now (.environmentData env)) (fun _ => True)
        (fun _ => False) (fun _ _ h => h) (fun _ _ h => h) (fun v _ _ => ?_)
        (App.subscribers_nodup pf _) hmem (fun s _ hne v _ _ => ?_) _ trivial id
      · exact publish_quiet pf (m := .environmentAck _) (by simp [Quiet, Msg.id]) _
      · cases s <;> first | rfl | exact absurd rfl hne

/-! ## Steps -/

/-- The pointer held is one into the cache, and an active route has a current node. -/
structure WellFormed (n : Navigation F) : Prop where
  pointer : ∀ p ∈ n.autonomous.currentEnvPtr, p < n.environment.cache.length
  node : n.autonomous.routeActive = true → n.autonomous.idle = false

/-- The check of a node leaves a route with a current node, or none. -/
theorem checkNode_idle (deref : EnvPtr → EnvironmentPayload F) {s : AutonomousService F}
    (hidle : s.idle = false) (idx : Nat) (kin : KinematicsPayload F)
    (hactive : (s.checkNode deref idx kin).1.routeActive = true) :
    (s.checkNode deref idx kin).1.idle = false := by
  revert hactive
  unfold AutonomousService.checkNode AutonomousService.recordStats AutonomousService.advanceNode
  dsimp only
  split_ifs <;> simp_all [AutonomousService.idle]

/-- **The region held after a sample**: the first hit if the controller asked and there is one, the
    region held before otherwise. -/
theorem onKinematicsData_pointer {n : Navigation F} (hidle : n.autonomous.idle = false) (now : Nat)
    (kin : KinematicsPayload F) : (n.onKinematicsData now kin).autonomous.currentEnvPtr =
      if n.autonomous.needsEnvironment n.environment.deref kin.positionM then
        (n.environment.lookup ⟨kin.positionM, 0⟩).or n.autonomous.currentEnvPtr
      else n.autonomous.currentEnvPtr := by
  rw [onKinematicsData, AutonomousService.onKinematicsData_eq _ _ _ _ hidle]
  refine (AutonomousService.checkNode_currentEnvPtr _ _ _ _).trans ?_
  have hasks : n.asks kin = n.autonomous.needsEnvironment n.environment.deref kin.positionM := by
    simp [asks, hidle]
  unfold AutonomousService.answered answer
  rw [hasks]
  split
  · rw [replies_onInternalEnvRequest]
    cases n.environment.lookup ⟨kin.positionM, 0⟩ with
    | none => rfl
    | some p => exact AutonomousService.onInternalEnvData_currentEnvPtr _ _ _
  · rfl

/-- A sample leaves an active route with a current node. -/
theorem onKinematicsData_node {s : AutonomousService F} (h : s.routeActive = true → s.idle = false)
    (deref : EnvPtr → EnvironmentPayload F) (kin : KinematicsPayload F)
    (replies : List InternalEnvDataPayload)
    (hactive : (s.onKinematicsData deref kin replies).1.routeActive = true) :
    (s.onKinematicsData deref kin replies).1.idle = false := by
  cases hidle : s.idle with
  | true =>
      have hsame : (s.onKinematicsData deref kin replies).1 = s.rememberPosition kin := by
        simp [AutonomousService.onKinematicsData, hidle]
      rw [hsame] at hactive ⊢
      exact h hactive
  | false =>
      have hmission := AutonomousService.answered_mission deref s kin replies
      have hanswered : (s.answered deref kin replies).1.idle = false := by
        rw [AutonomousService.idle, hmission.active, hmission.cmd, hmission.node]
        exact hidle
      rw [AutonomousService.onKinematicsData_eq deref s kin replies hidle] at hactive ⊢
      exact checkNode_idle deref hanswered _ kin hactive

/-- **Step lemma.** -/
theorem WellFormed.step {n : Navigation F} (h : n.WellFormed) (now : Nat) (i : Input F) :
    (n.step now i).WellFormed := by
  cases i with
  | environmentData env =>
      exact ⟨fun p hp =>
        (h.pointer p hp).trans_le (EnvironmentService.onEnvironmentData_length _ env), h.node⟩
  | powerData power => exact ⟨h.pointer, h.node⟩
  | autoDriveCommand cmd =>
      refine ⟨fun p hp => ?_, fun hactive => ?_⟩
      · exact absurd (Option.mem_def.1 hp) (by simp [Navigation.step,
          AutonomousService.onAutoDriveCommand, AutonomousService.acceptCommand])
      · exact AutonomousService.idle_eq_false.2 ⟨hactive, of_decide_eq_true hactive⟩
  | kinematicsData kin =>
      refine ⟨fun p hp => ?_, onKinematicsData_node h.node _ kin _⟩
      show p < (n.answer now kin).1.cache.length
      rw [answer_cache]
      cases hidle : n.autonomous.idle with
      | true =>
          have hsame : (n.onKinematicsData now kin).autonomous.currentEnvPtr =
              n.autonomous.currentEnvPtr := by
            simp [onKinematicsData, AutonomousService.onKinematicsData, hidle,
              AutonomousService.rememberPosition]
          exact h.pointer p (hsame ▸ hp)
      | false =>
          rw [Navigation.step, onKinematicsData_pointer hidle] at hp
          split at hp
          · rcases Option.eq_none_or_eq_some (n.environment.lookup ⟨kin.positionM, 0⟩) with
              hnone | ⟨q, hq⟩
            · exact h.pointer p (by simpa [hnone] using hp)
            · obtain rfl : q = p := by simpa [hq] using hp
              exact EnvironmentService.lookup_lt hq
          · exact h.pointer p hp

/-- **Run lemma.** -/
theorem run_wellFormed (history : List (Nat × Input F)) :
    ((init : Navigation F).run history).WellFormed := by
  induction history using List.reverseRecOn with
  | nil =>
      exact ⟨fun p hp => absurd (Option.mem_def.1 hp) (by simp [init, run, AutonomousService.init]),
        fun hactive => absurd hactive Bool.false_ne_true⟩
  | append_singleton history i ih =>
      rw [run_concat]
      exact ih.step i.1 i.2

/-! ## Coverage -/

section Coverage

variable {n : Navigation F} {x : F}

theorem known_iff : n.Known x ↔ n.environment.lookup ⟨x, 0⟩ ≠ none := by
  unfold Known EnvironmentService.lookup
  rw [Ne, List.findIdx?_eq_none_iff]
  simp

theorem known_onKinematicsData (now : Nat) (kin : KinematicsPayload F) :
    (n.onKinematicsData now kin).Known x ↔ n.Known x := by
  show (∃ env ∈ (n.answer now kin).1.cache, _) ↔ _
  rw [answer_cache]
  rfl

/-- The first hit contains the point. -/
theorem lookup_contains {s : EnvironmentService F} {p : EnvPtr} (h : s.lookup ⟨x, 0⟩ = some p) :
    ∃ env, s.cache[p]? = some env ∧ env.bounds.contains x 0 = true := by
  obtain ⟨hlt, hcontains, -⟩ := List.findIdx?_eq_some_iff_getElem.1 h
  exact ⟨_, List.getElem?_eq_getElem hlt, hcontains⟩

/-- The controller is content with the x range of the region it holds. -/
theorem outside_eq_false_iff (h : n.WellFormed) :
    n.autonomous.outsideEnvironment n.environment.deref x = false ↔
      ∃ p ∈ n.autonomous.currentEnvPtr, ∃ env, n.environment.cache[p]? = some env ∧
        lt x env.bounds.minPt.x = false ∧ lt env.bounds.maxPt.x x = false := by
  unfold AutonomousService.outsideEnvironment
  rcases Option.eq_none_or_eq_some n.autonomous.currentEnvPtr with hnone | ⟨p, hp⟩
  · simp [hnone]
  · have hlt := h.pointer p hp
    simp [hp, EnvironmentService.deref, hlt]

/-- **Step lemma.** After a sample of a tuned route the controller covers what is known, if and only
    if the sample was not in a blind spot. -/
theorem covered_iff (h : n.WellFormed) (htuned : n.Tuned) (now : Nat) (kin : KinematicsPayload F) :
    ((n.onKinematicsData now kin).Known kin.positionM →
        (n.onKinematicsData now kin).Covered kin.positionM) ↔ ¬ n.BlindSpot kin.positionM := by
  have hpointer := onKinematicsData_pointer (h.node htuned.1) now kin
  have hcache : (n.onKinematicsData now kin).environment.cache = n.environment.cache :=
    answer_cache n now kin
  rw [known_onKinematicsData, Covered, hpointer, hcache]
  have hneeds : n.autonomous.needsEnvironment n.environment.deref kin.positionM =
      n.autonomous.outsideEnvironment n.environment.deref kin.positionM := by
    simp [AutonomousService.needsEnvironment, htuned.2]
  rw [hneeds]
  cases hout : n.autonomous.outsideEnvironment n.environment.deref kin.positionM with
  | true =>
      -- The controller asks, and is told of a region if there is one.
      have hblind : ¬ n.BlindSpot kin.positionM := by
        rintro ⟨-, p, hp, env, henv, hlo, hhi, -⟩
        rw [(outside_eq_false_iff h).2 ⟨p, hp, env, henv, hlo, hhi⟩] at hout
        exact Bool.false_ne_true hout
      refine iff_of_true (fun hknown => ?_) hblind
      obtain ⟨p, hp⟩ := Option.ne_none_iff_exists'.1 (known_iff.1 hknown)
      exact ⟨p, by simp [hp], lookup_contains hp⟩
  | false =>
      obtain ⟨p, hp, env, henv, hlo, hhi⟩ := (outside_eq_false_iff h).1 hout
      simp only [Bool.false_eq_true, if_false, BlindSpot, Option.mem_def.1 hp, Option.mem_def,
        Option.some.injEq, exists_eq_left', henv, hlo, hhi, true_and, not_and,
        Bool.not_eq_false]

end Coverage

/-- In exact arithmetic it is the y range of the region held that makes a spot blind. -/
theorem blindSpot_iff {n : Navigation ℚ} {x : ℚ} : n.BlindSpot x ↔
    n.Known x ∧ ∃ p ∈ n.autonomous.currentEnvPtr, ∃ env, n.environment.cache[p]? = some env ∧
      (env.bounds.minPt.x ≤ x ∧ x ≤ env.bounds.maxPt.x) ∧
      (0 < env.bounds.minPt.y ∨ env.bounds.maxPt.y < 0) := by
  unfold BlindSpot BoundingBox2D.contains
  refine and_congr_right fun _ => exists_congr fun p => and_congr_right fun _ =>
    exists_congr fun env => and_congr_right fun _ => ?_
  simp only [lt_rat, le_rat, decide_eq_false_iff_not, not_lt, Bool.and_eq_false_iff, not_le]
  constructor
  · rintro ⟨hlo, hhi, ((hx | hx) | hy) | hy⟩
    · exact absurd hlo hx.not_ge
    · exact absurd hhi hx.not_ge
    · exact ⟨⟨hlo, hhi⟩, .inl hy⟩
    · exact ⟨⟨hlo, hhi⟩, .inr hy⟩
  · rintro ⟨⟨hlo, hhi⟩, hy⟩
    exact ⟨hlo, hhi, hy.elim (fun hy => .inl (.inr hy)) .inr⟩

/-! ## Runs -/

/-- **The controller and the cache agree on coverage**: after every sample of a tuned route the
    controller holds a region with the point in it if the cache has one, if and only if no such
    sample is in a blind spot. -/
theorem run_covered_iff (history : List (Nat × Input F)) :
    (∀ pre now kin, pre ++ [(now, .kinematicsData kin)] <+: history →
      ((init : Navigation F).run pre).Tuned →
        let after := (init : Navigation F).run (pre ++ [(now, .kinematicsData kin)])
        after.Known kin.positionM → after.Covered kin.positionM) ↔
      ∀ pre now kin, pre ++ [(now, .kinematicsData kin)] <+: history →
        ((init : Navigation F).run pre).Tuned →
          ¬ ((init : Navigation F).run pre).BlindSpot kin.positionM := by
  refine forall_congr' fun pre => forall_congr' fun now => forall_congr' fun kin =>
    forall_congr' fun _ => forall_congr' fun htuned => ?_
  rw [run_concat]
  exact covered_iff (run_wellFormed pre) htuned now kin

/-! ## A region that leaves the track -/

/-- The track from 0 to 10 m, 1 m to either side of `y`. -/
def strip (regionId : Nat) (y : ℚ) : EnvironmentPayload ℚ :=
  { (default : EnvironmentPayload ℚ) with
    regionId := regionId
    bounds := ⟨⟨0, y - 1⟩, ⟨10, y + 1⟩⟩ }

/-- Two regions around the track, a sample that gets the first one, and its update to a strip beside
    the track. -/
def leavesTrack : List (Nat × Input ℚ) :=
  [(1, .environmentData (strip 1 0)), (1, .environmentData (strip 2 0)),
    (1, .autoDriveCommand { (default : AutoDriveCommandPayload ℚ) with
      numNodes := 1, useEnvironmentTuning := true, route := fun _ => ⟨⟨9, 0⟩, 5000⟩ }),
    (1, .kinematicsData ⟨0, 0, 1, 0⟩), (1, .environmentData (strip 1 5))]

/-- The next sample is in region 2, and the controller stays with region 1. -/
theorem leavesTrack_uncovered :
    ¬ ∀ (history : List (Nat × Input ℚ)) pre now kin,
      pre ++ [(now, .kinematicsData kin)] <+: history → ((init : Navigation ℚ).run pre).Tuned →
        let after := (init : Navigation ℚ).run (pre ++ [(now, .kinematicsData kin)])
        after.Known kin.positionM → after.Covered kin.positionM := by
  intro h
  have hcovered := h (leavesTrack ++ [(1, .kinematicsData ⟨0, 0, 2, 0⟩)]) leavesTrack 1
    ⟨0, 0, 2, 0⟩ (List.prefix_refl _) (by decide +kernel) (by decide +kernel)
  revert hcovered
  decide +kernel

end Navigation

end ReflectPytest
