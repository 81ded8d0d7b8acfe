import ReflectPytest.App

set_option autoImplicit false

/-! # Queries

A client may insert requests for the state, the position, the power and the temperature anywhere in
a run. The replies go out on the bus, where `AutonomousService` takes positions and power readings
for its own polls: it adds the energy of every power sample it sees, and checks its node at every
position it sees. `Silent` is when that changes nothing. -/

namespace ReflectPytest

open SyncBus FloatOps

variable {F : Type} [FloatOps F]

namespace App

/-! ## Inserted queries -/

inductive Query where
  | state | kinematics | power | thermal
  deriving DecidableEq, Repr

/-- The request of a query. -/
def Query.msg : Query → Msg F
  | .state => .stateRequest
  | .kinematics => .kinematicsRequest
  | .power => .powerRequest
  | .thermal => .thermalRequest

/-- The identifier of its reply. -/
def Query.replyId : Query → MsgId
  | .state => .stateData
  | .kinematics => .kinematicsData
  | .power => .powerData
  | .thermal => .thermalData

/-- An event of a run, or a query inserted into it. -/
inductive Item (F : Type) where
  | event (e : Event F)
  | query (now : Nat) (q : Query)

/-- The run with the queries. -/
def withQueries (items : List (Item F)) : List (Event F) :=
  items.map fun item => match item with
    | .event e => e
    | .query now q => .datagram now q.msg

/-- The run without them. -/
def withoutQueries (items : List (Item F)) : List (Event F) :=
  items.filterMap fun item => match item with
    | .event e => some e
    | .query _ _ => none

/-- The second history has queries and their replies in addition to the first. -/
inductive OnlyReplies : List (Record F) → List (Record F) → Prop
  | nil : OnlyReplies [] []
  | same {h h' : List (Record F)} (r : Record F) (hh : OnlyReplies h h') :
      OnlyReplies (r :: h) (r :: h')
  | query {h h' : List (Record F)} (q : Query) (m : Msg F) (hm : m.id = q.replyId)
      (hh : OnlyReplies h h') : OnlyReplies h (.published m :: .published q.msg :: h')

/-- The motor commands, motor statuses and drive statuses of a history. -/
def controls (history : List (Record F)) : List (Record F) :=
  history.filter fun r => match r with
    | .published m => decide (m.id ∈ [MsgId.motorSequence, .motorStatus, .autoDriveStatus])
    | .snapshot _ => false

omit [FloatOps F] in
theorem OnlyReplies.refl (h : List (Record F)) : OnlyReplies h h := by
  induction h with
  | nil => exact .nil
  | cons r rest ih => exact .same r ih

omit [FloatOps F] in
theorem OnlyReplies.append {h h' : List (Record F)} (hh : OnlyReplies h h') (l : List (Record F)) :
    OnlyReplies (l ++ h) (l ++ h') := by
  induction l with
  | nil => exact hh
  | cons r rest ih => exact .same r ih

omit [FloatOps F] in
/-- Queries and replies are no controls. -/
theorem OnlyReplies.controls_eq {h h' : List (Record F)} (hh : OnlyReplies h h') :
    controls h' = controls h := by
  induction hh with
  | nil => rfl
  | same r _ ih =>
      unfold controls at ih ⊢
      rw [List.filter_cons, List.filter_cons, ih]
  | query q m hm _ ih =>
      have hquery : (q.msg : Msg F).id ∉ [MsgId.motorSequence, .motorStatus, .autoDriveStatus] := by
        cases q <;> simp [Query.msg, Msg.id]
      have hreply : m.id ∉ [MsgId.motorSequence, .motorStatus, .autoDriveStatus] := by
        rw [hm]
        cases q <;> decide
      unfold controls at ih ⊢
      rw [List.filter_cons_of_neg (by simpa using hreply),
        List.filter_cons_of_neg (by simpa using hquery), ih]

/-! ## When a query is silent -/

/-- The query changes nothing `AutonomousService` will act on: a power sample is ignored or adds no
    energy, and a position is the one it remembers, is not at the node, and is covered by the region
    in use. -/
def Silent (w : World F) : Query → Prop
  | .state => True
  | .thermal => True
  | .power => w.autonomous.idle = true ∨
      w.autonomous.currentTotalEnergyJ + AutonomousService.sampleEnergyJ w.power.onPowerRequest =
        w.autonomous.currentTotalEnergyJ
  | .kinematics => w.autonomous.lastPosM = w.kinematics.positionM ∧
      (w.autonomous.idle = true ∨
        w.autonomous.needsEnvironment w.environment.deref w.kinematics.positionM = false ∧
        AutonomousService.reached (w.autonomous.node w.autonomous.currentNodeIdx).targetPos.x
          w.autonomous.lastPosM w.kinematics.positionM = false)

/-- Every query of the run is silent where it is inserted. -/
def SilentAlong (pf : Platform F) : World F → List (Item F) → Prop
  | _, [] => True
  | w, .event e :: rest => SilentAlong pf (step pf w e) rest
  | w, .query now q :: rest => Silent w q ∧ SilentAlong pf (step pf w (.datagram now q.msg)) rest

/-! ## Worlds that differ in history and unused energy -/

/-- The second world has another history and, while there is no current node, another energy. -/
structure Twin (w w' : World F) : Prop where
  eq : ∃ total, w' = { w with
    now := w'.now
    history := w'.history
    autonomous := { w.autonomous with currentTotalEnergyJ := total } } ∧
    (w.autonomous.idle = true ∨ total = w.autonomous.currentTotalEnergyJ)
  history : OnlyReplies w.history w'.history

/-- Two worlds in lockstep since their histories were `h` and `h'`. -/
def Lockstep (h h' : List (Record F)) (w w' : World F) : Prop :=
  ∃ seg, w.history = seg ++ h ∧ w' = { w with history := seg ++ h' }

/-- Two worlds without a current node in lockstep, up to the energy. -/
def IdleLockstep (h h' : List (Record F)) (w w' : World F) : Prop :=
  ∃ seg total, w.history = seg ++ h ∧ w.autonomous.idle = true ∧
    w' = { w with
      history := seg ++ h'
      autonomous := { w.autonomous with currentTotalEnergyJ := total } }

variable {h h' : List (Record F)}

/-- No handler reads the history. -/
theorem code_respects_lockstep (pf : Platform F) (s : Service) (m : Msg F) :
    (code pf s m).Respects (Lockstep h h') := by
  have hsingle : ∀ run : World F → World F × List (Msg F),
      (∀ w x, run { w with history := x } = ({ (run w).1 with history := x }, (run w).2) ∧
        (run w).1.history = w.history) → (Code.single run).Respects (Lockstep h h') := by
    intro run hrun
    refine (Code.respects_single _ _).2 ?_
    rintro w _ ⟨seg, hw, rfl⟩
    obtain ⟨heq, hhist⟩ := hrun w (seg ++ h')
    rw [heq]
    exact ⟨⟨seg, hhist.trans hw, rfl⟩, rfl⟩
  cases s <;> cases m <;> first | exact trivial | exact hsingle _ fun _ _ => ⟨rfl, rfl⟩ | skip
  case environment.internalEnvRequest req =>
      rintro w _ ⟨seg, hw, rfl⟩
      refine ⟨⟨seg, hw, rfl⟩, rfl, rfl, ?_⟩
      dsimp only
      split
      · exact hsingle _ fun _ _ => ⟨rfl, rfl⟩
      · trivial
  case autonomous.kinematicsData kin =>
      rintro w _ ⟨seg, hw, rfl⟩
      unfold requestStretch
      dsimp only
      cases hidle : w.autonomous.idle with
      | true => exact ⟨⟨seg, hw, rfl⟩, rfl, rfl, trivial⟩
      | false =>
          refine ⟨⟨seg, hw, rfl⟩, rfl, rfl, ?_⟩
          rintro w _ ⟨seg, hw, rfl⟩
          exact ⟨⟨seg, hw, rfl⟩, rfl, rfl, hsingle _ fun _ _ => ⟨rfl, rfl⟩⟩

/-- **Lockstep** of a publish in worlds that differ in their history. -/
theorem publish_lockstep (pf : Platform F) (m : Msg F) {w w' : World F} (hw : Lockstep h h' w w') :
    Lockstep h h' ((bus pf).publish m w) ((bus pf).publish m w') := by
  have hall : ∀ s m, (code pf s m).Emits fun _ => True :=
    fun s m => (code_emits pf s m).mono (fun _ _ => trivial)
  refine Bus.publish_related (bus pf) (C := fun _ => True) (fun m _ s _ => hall s m)
    (fun m _ s _ => code_respects_lockstep pf s m) ?_ m trivial w w' hw
  rintro m - w _ ⟨seg, hseg, rfl⟩
  exact ⟨.published m :: seg, congrArg (Record.published m :: ·) hseg, rfl⟩

omit [FloatOps F] in
theorem idle_of_mission {s s' : AutonomousService F} (h : s.SameMission s') : s'.idle = s.idle := by
  rw [AutonomousService.idle, AutonomousService.idle, h.active, h.cmd, h.node]

/-- Environment data does not involve the energy. -/
theorem onInternalEnvData_energy (deref : EnvPtr → EnvironmentPayload F) (s : AutonomousService F)
    (env : InternalEnvDataPayload) (total : F) :
    { s with currentTotalEnergyJ := total }.onInternalEnvData deref env =
      ({ (s.onInternalEnvData deref env).1 with currentTotalEnergyJ := total },
        (s.onInternalEnvData deref env).2) := by
  unfold AutonomousService.onInternalEnvData AutonomousService.trackEnvironment
  dsimp only
  split_ifs <;> rfl

/-- Without a current node no handler but that of a new command reads the energy. -/
theorem code_respects_idleLockstep (pf : Platform F) (s : Service) {m : Msg F}
    (hm : m.id ≠ .autoDriveCommand) : (code pf s m).Respects (IdleLockstep h h') := by
  have hsingle : ∀ run : World F → World F × List (Msg F),
      (∀ w x total, ∃ total',
        run { w with
          history := x
          autonomous := { w.autonomous with currentTotalEnergyJ := total } } =
        ({ (run w).1 with
          history := x
          autonomous := { (run w).1.autonomous with currentTotalEnergyJ := total' } }, (run w).2) ∧
        (run w).1.history = w.history ∧ (run w).1.autonomous.idle = w.autonomous.idle) →
      (Code.single run).Respects (IdleLockstep h h') := by
    intro run hrun
    refine (Code.respects_single _ _).2 ?_
    rintro w _ ⟨seg, total, hw, hidle, rfl⟩
    obtain ⟨total', heq, hhist, hsame⟩ := hrun w (seg ++ h') total
    rw [heq]
    exact ⟨⟨seg, total', hhist.trans hw, hsame.trans hidle, rfl⟩, rfl⟩
  cases s <;> cases m <;> first
    | exact trivial
    | exact hsingle _ fun _ _ total => ⟨total, rfl, rfl, rfl⟩
    | skip
  case environment.internalEnvRequest req =>
      rintro w _ ⟨seg, total, hw, hidle, rfl⟩
      refine ⟨⟨seg, total, hw, hidle, rfl⟩, rfl, rfl, ?_⟩
      dsimp only
      split
      · exact hsingle _ fun _ _ total => ⟨total, rfl, rfl, rfl⟩
      · trivial
  case autonomous.autoDriveCommand cmd => exact absurd rfl hm
  case autonomous.internalEnvData env =>
      refine hsingle _ fun w x total => ⟨total, ?_, rfl, ?_⟩
      · have heq := onInternalEnvData_energy w.environment.deref w.autonomous env total
        exact congrArg (fun r : AutonomousService F × List (Effect F) =>
          (({ w with history := x, autonomous := r.1 } : World F), messages r.2)) heq
      · exact idle_of_mission (AutonomousService.onInternalEnvData_mission _ _ env)
  case autonomous.powerData power =>
      exact hsingle _ fun w x total =>
        ⟨total + AutonomousService.sampleEnergyJ power, rfl, rfl, rfl⟩
  case autonomous.kinematicsData kin =>
      rintro w _ ⟨seg, total, hw, hidle, rfl⟩
      have hidle' : { w.autonomous with currentTotalEnergyJ := total }.idle = true := hidle
      unfold requestStretch
      dsimp only
      rw [hidle, hidle']
      exact ⟨⟨seg, total, hw, hidle, rfl⟩, rfl, rfl, trivial⟩

/-- **Lockstep** of a publish in worlds without a current node that also differ in their energy. -/
theorem publish_idleLockstep (pf : Platform F) {m : Msg F} (hm : m.id ≠ .autoDriveCommand)
    {w w' : World F} (hw : IdleLockstep h h' w w') :
    IdleLockstep h h' ((bus pf).publish m w) ((bus pf).publish m w') := by
  have hnone : ∀ (s : Service) id, ∀ id' ∈ s.answers id, id' ≠ .autoDriveCommand := by
    intro s id
    cases s <;> cases id <;> decide
  refine Bus.publish_related (bus pf) (C := fun m => m.id ≠ .autoDriveCommand)
    (fun m _ s _ => (code_emits pf s m).mono (fun _ => hnone s m.id _))
    (fun m hm s _ => code_respects_idleLockstep pf s hm) ?_ m hm w w' hw
  rintro m - w _ ⟨seg, total, hseg, hidle, rfl⟩
  exact ⟨.published m :: seg, total, congrArg (Record.published m :: ·) hseg, hidle, rfl⟩

omit [FloatOps F] in
theorem Lockstep.twin {w w' : World F} (hw : Lockstep h h' w w') (hh : OnlyReplies h h') :
    Twin w w' := by
  obtain ⟨seg, hseg, rfl⟩ := hw
  exact ⟨⟨w.autonomous.currentTotalEnergyJ, rfl, Or.inr rfl⟩, by rw [hseg]; exact hh.append seg⟩

omit [FloatOps F] in
theorem IdleLockstep.twin {w w' : World F} (hw : IdleLockstep h h' w w') (hh : OnlyReplies h h') :
    Twin w w' := by
  obtain ⟨seg, total, hseg, hidle, rfl⟩ := hw
  exact ⟨⟨total, rfl, Or.inl hidle⟩, by rw [hseg]; exact hh.append seg⟩

/-- A new command forgets the energy. -/
theorem publish_autoDriveCommand (pf : Platform F) (cmd : AutoDriveCommandPayload F)
    {w w' : World F}
    (hw : IdleLockstep h h' w w') :
    Lockstep h h' ((bus pf).publish (.autoDriveCommand cmd) w)
      ((bus pf).publish (.autoDriveCommand cmd) w') := by
  obtain ⟨seg, total, hseg, -, rfl⟩ := hw
  have hsubs : (bus pf).subscribers (.autoDriveCommand cmd) = [.autonomous] :=
    List.perm_singleton.1 (subscribers_perm pf (.autoDriveCommand cmd))
  simp only [Bus.publish_eq, Bus.deliver, hsubs, List.foldl_cons, List.foldl_nil]
  -- After the section of the handler the worlds differ in their history only.
  let ms := messages (w.autonomous.onAutoDriveCommand w.environment.deref cmd).2
  have hemits : (Code.single fun v : World F => (v, ms)).Emits fun _ => True :=
    (Code.emits_single _ _).2 fun _ _ _ => trivial
  refine Code.exec_related (fun m _ _ _ hv => publish_lockstep pf m hv) (.single fun v => (v, ms))
    hemits ((Code.respects_single _ _).2 fun _ _ hv => ⟨hv, rfl⟩)
    { w with
      autonomous := w.autonomous.acceptCommand cmd
      history := .published (.autoDriveCommand cmd) :: w.history }
    { w with
      autonomous := w.autonomous.acceptCommand cmd
      history := .published (.autoDriveCommand cmd) :: (seg ++ h') } ?_
  exact ⟨.published (.autoDriveCommand cmd) :: seg,
    congrArg (Record.published (.autoDriveCommand cmd) :: ·) hseg, rfl⟩

omit [FloatOps F] in
/-- Twins that start on the same event are in lockstep. -/
theorem Twin.start {w w' : World F} (hw : Twin w w') (now : Nat) (seg : List (Record F)) :
    Lockstep w.history w'.history { w with now := now, history := seg ++ w.history }
        { w' with now := now, history := seg ++ w'.history } ∨
      IdleLockstep w.history w'.history { w with now := now, history := seg ++ w.history }
        { w' with now := now, history := seg ++ w'.history } := by
  obtain ⟨total, heq, hcase⟩ := hw.eq
  rcases hcase with hidle | rfl
  · refine Or.inr ⟨seg, total, rfl, hidle, ?_⟩
    rw [heq]
  · refine Or.inl ⟨seg, rfl, ?_⟩
    rw [heq]

/-- **Step lemma.** Twins that handle the same event stay twins. -/
theorem Twin.step {w w' : World F} (hw : Twin w w') (pf : Platform F) (e : Event F) :
    Twin (step pf w e) (step pf w' e) := by
  cases e with
  | tick now =>
      have hstep : ∀ v : World F, App.step pf v (.tick now) =
          (bus pf).publish (.physicsTick (v.state.snapshot pf.kTickUs))
            { v with
              now := now
              history := [.snapshot (v.state.snapshot pf.kTickUs)] ++ v.history } :=
        fun _ => rfl
      have hsnapshot : w'.state.snapshot pf.kTickUs = w.state.snapshot pf.kTickUs := by
        obtain ⟨total, heq, -⟩ := hw.eq
        rw [heq]
      rw [hstep, hstep, hsnapshot]
      rcases hw.start now [.snapshot (w.state.snapshot pf.kTickUs)] with hrun | hrun
      · exact (publish_lockstep pf _ hrun).twin hw.history
      · exact (publish_idleLockstep pf (m := .physicsTick _) MsgId.noConfusion hrun).twin hw.history
  | datagram now m =>
      simp only [App.step]
      cases authorized m with
      | false =>
          rcases hw.start now [] with hrun | hrun
          · exact hrun.twin hw.history
          · exact hrun.twin hw.history
      | true =>
          rcases hw.start now [] with hrun | hrun
          · exact (publish_lockstep pf m hrun).twin hw.history
          · by_cases hm : m.id = .autoDriveCommand
            · cases m <;> simp only [Msg.id, reduceCtorEq] at hm
              next cmd => exact (publish_autoDriveCommand pf cmd hrun).twin hw.history
            · exact (publish_idleLockstep pf hm hrun).twin hw.history

/-! ## What a query does -/

/-- A message that only one of its subscribers does anything with. -/
theorem publish_one (pf : Platform F) {m : Msg F} {s : Service} (hs : m.id ∈ s.subscribes)
    (hothers : ∀ s' ≠ s, code pf s' m = .done) (w : World F) :
    (bus pf).publish m w = (code pf s m).exec (bus pf).publish ((bus pf).record m w) := by
  rw [Bus.publish_eq]
  refine Bus.foldl_once (f := fun s v => (code pf s m).exec (bus pf).publish v) id
    ((code pf s m).exec (bus pf).publish) (fun _ => True) (fun _ => False)
    (fun _ _ h => h) (fun _ _ h => h) (fun _ _ _ => rfl) (subscribers_nodup pf m)
    (mem_subscribers.2 hs) (fun s' _ hne v _ _ => ?_) _ trivial id
  show (code pf s' m).exec _ v = v
  rw [hothers s' hne]
  rfl

/-- The service that does something with a message, where only one does. -/
def soleHandler : MsgId → Option Service
  | .motorSequence => some .motor
  | .stateRequest => some .state
  | .kinematicsRequest => some .kinematics
  | .powerRequest => some .power
  | .thermalRequest => some .thermal
  | .internalEnvRequest => some .environment
  | .autoDriveCommand => some .autonomous
  | .kinematicsData => some .autonomous
  | .powerData => some .autonomous
  | .internalEnvData => some .autonomous
  | _ => none

theorem publish_sole (pf : Platform F) {m : Msg F} {s : Service} (hs : soleHandler m.id = some s)
    (w : World F) :
    (bus pf).publish m w = (code pf s m).exec (bus pf).publish ((bus pf).record m w) := by
  have hsub : ∀ id, soleHandler id = some s → id ∈ s.subscribes := by
    intro id
    cases s <;> cases id <;> decide
  refine publish_one pf (hsub _ hs) (fun s' hne => ?_) w
  cases m <;> simp only [soleHandler, Msg.id, reduceCtorEq, Option.some.injEq] at hs <;>
    subst hs <;> cases s' <;> first | rfl | exact absurd rfl hne

/-- The service that answers a query. -/
def Query.service : Query → Service
  | .state => .state
  | .kinematics => .kinematics
  | .power => .power
  | .thermal => .thermal

/-- Its answer. -/
def Query.reply (w : World F) : Query → Msg F
  | .state => .stateData w.state.onStateRequest
  | .kinematics => .kinematicsData w.kinematics.onKinematicsRequest
  | .power => .powerData w.power.onPowerRequest
  | .thermal => .thermalData w.thermal.publishData

/-- A query is answered by its service. -/
theorem publish_query (pf : Platform F) (q : Query) (w : World F) :
    (bus pf).publish q.msg w =
      (bus pf).publish (q.reply w) { w with history := .published q.msg :: w.history } := by
  rw [publish_sole pf (s := q.service) (by cases q <;> rfl)]
  cases q <;> rfl

omit [FloatOps F] in
/-- Remembering the position it remembers already changes nothing. -/
theorem rememberPosition_self {s : AutonomousService F} {kin : KinematicsPayload F}
    (hpos : s.lastPosM = kin.positionM) : s.rememberPosition kin = s := by
  unfold AutonomousService.rememberPosition
  rw [← hpos]

/-- `AutonomousService` on the position of a silent query. -/
theorem exec_silent (pf : Platform F) {w : World F} {kin : KinematicsPayload F}
    (hpos : w.autonomous.lastPosM = kin.positionM)
    (hquiet : w.autonomous.idle = true ∨
      w.autonomous.needsEnvironment w.environment.deref kin.positionM = false ∧
      AutonomousService.reached (w.autonomous.node w.autonomous.currentNodeIdx).targetPos.x
        w.autonomous.lastPosM kin.positionM = false) :
    (code pf .autonomous (.kinematicsData kin)).exec (bus pf).publish w = w := by
  have hsame := rememberPosition_self hpos
  simp only [code, Code.exec]
  cases hidle : w.autonomous.idle with
  | true => simp [requestStretch, hidle, hsame]
  | false =>
      obtain ⟨hneeds, hreached⟩ := hquiet.resolve_left (by rw [hidle]; exact Bool.false_ne_true)
      have hrequest : requestStretch kin w = (w, []) := by
        simp [requestStretch, hidle, AutonomousService.requestEnvironment, hneeds]
      have hcheck : checkStretch w.autonomous.currentNodeIdx kin w = (w, []) := by
        rw [checkStretch, AutonomousService.checkNode_miss _ hreached]
        rfl
      simp only [hrequest, List.foldl_nil, Bool.false_eq_true, if_false, Code.exec, hcheck, update,
        Code.exec_single, rememberStretch, hsame]

/-- **A silent query** leaves a twin. -/
theorem step_query (pf : Platform F) (w : World F) (now : Nat) (q : Query) (hsilent : Silent w q) :
    ∃ total, step pf w (.datagram now q.msg) = { w with
        now := now
        history := .published (q.reply w) :: .published q.msg :: w.history
        autonomous := { w.autonomous with currentTotalEnergyJ := total } } ∧
      (w.autonomous.idle = true ∨ total = w.autonomous.currentTotalEnergyJ) := by
  have hauth : authorized (q.msg : Msg F) = true := by
    cases q <;> simp [Query.msg, authorized, Msg.id, Service.publishes]
  have hbridge : ∀ m : Msg F, m.id ∈ Service.udpBridge.subscribes →
      (∀ s, code pf s m = .done) → ∀ w, (bus pf).publish m w = (bus pf).record m w := by
    intro m hs hdone w
    rw [publish_one pf hs fun s _ => hdone s, hdone]
    rfl
  simp only [step, hauth, if_true, publish_query]
  cases q with
  | state =>
      refine ⟨_, hbridge _ (by simp [Query.reply, Msg.id, Service.subscribes]) (fun s => ?_) _,
        Or.inr rfl⟩
      cases s <;> rfl
  | thermal =>
      refine ⟨_, hbridge _ (by simp [Query.reply, Msg.id, Service.subscribes]) (fun s => ?_) _,
        Or.inr rfl⟩
      cases s <;> rfl
  | power => exact ⟨_, publish_sole pf (s := .autonomous) rfl _, hsilent⟩
  | kinematics =>
      exact ⟨w.autonomous.currentTotalEnergyJ, (publish_sole pf (s := .autonomous) rfl _).trans
        (exec_silent pf hsilent.1 hsilent.2), Or.inr rfl⟩

/-! ## Runs -/

/-- **Run lemma.** Silent queries leave the run a twin of the run without them. -/
theorem run_twin (pf : Platform F) (items : List (Item F)) {w w' : World F} (hw : Twin w w')
    (hsilent : SilentAlong pf w' items) :
    Twin (run pf w (withoutQueries items)) (run pf w' (withQueries items)) := by
  induction items generalizing w w' with
  | nil => exact hw
  | cons item rest ih =>
      cases item with
      | event e => exact ih (hw.step pf e) hsilent
      | query now q =>
          obtain ⟨total, heq, hcase⟩ := step_query pf w' now q hsilent.1
          obtain ⟨total', heq', hcase'⟩ := hw.eq
          refine ih ⟨⟨total, ?_, ?_⟩, ?_⟩ hsilent.2
          · rw [heq, heq']
          · rcases hcase' with hidle | rfl
            · exact Or.inl hidle
            · rw [heq'] at hcase
              exact hcase
          · rw [heq]
            refine .query q (q.reply w') ?_ hw.history
            cases q <;> rfl

/-- **Silent queries are pure observers**: a run whose inserted queries are all silent publishes the
    motor commands, motor statuses and drive statuses of the run without them, and in all nothing
    but the queries and their replies in addition. -/
theorem run_queries (pf : Platform F) (w : World F) (items : List (Item F))
    (hsilent : SilentAlong pf w items) :
    controls (run pf w (withQueries items)).history =
        controls (run pf w (withoutQueries items)).history ∧
      OnlyReplies (run pf w (withoutQueries items)).history
        (run pf w (withQueries items)).history := by
  have hstart : Twin w w := ⟨⟨w.autonomous.currentTotalEnergyJ, rfl, Or.inr rfl⟩, .refl _⟩
  have htwin := run_twin pf items hstart hsilent
  exact ⟨htwin.history.controls_eq, htwin.history⟩

/-! ## A power reading on the way -/

/-- The machine of the runs below: 1024 rpm to the power 1.6 is 65536. -/
def powPlatform : Platform ℚ := .libstdcxx fun x _ => if x = 1024 then 65536 else 0

/-- Drive to 0.25 m at 1024 rpm. -/
def quarterMetre : AutoDriveCommandPayload ℚ :=
  { (default : AutoDriveCommandPayload ℚ) with
    mode := .manualTuning
    pGain := 1024 / 1000
    numNodes := 1
    route := fun _ => ⟨⟨1 / 4, 0⟩, 1000⟩ }

/-- Four ticks of the drive, with a query after the second. -/
def driveWith (q : Query) : List (Item ℚ) :=
  [.event (.datagram 0 (.autoDriveCommand quarterMetre)), .event (.tick 1), .event (.tick 2),
    .query 3 q, .event (.tick 4), .event (.tick 5)]

theorem driveWith_thermal :
    controls (run powPlatform World.init
        (withQueries (.query 0 .power :: driveWith .thermal))).history =
      controls (run powPlatform World.init (withoutQueries (driveWith .thermal))).history :=
  (run_queries powPlatform World.init (.query 0 .power :: driveWith .thermal)
    ⟨Or.inl rfl, trivial, trivial⟩).1

/-- The energy of the extra power sample shows in the drive status. -/
theorem driveWith_power :
    ¬ ∀ (pf : Platform ℚ) (items : List (Item ℚ)),
      controls (run pf World.init (withQueries items)).history =
        controls (run pf World.init (withoutQueries items)).history := by
  intro hall
  have hsame := hall powPlatform (driveWith .power)
  revert hsame
  decide +kernel

end App

end ReflectPytest
