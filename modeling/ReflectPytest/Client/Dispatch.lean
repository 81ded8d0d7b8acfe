import ReflectPytest.Client.Fixtures
import ReflectPytest.Concurrency.CommandTicks

set_option autoImplicit false

/-! # Dispatching a motor sequence

`dispatch_sequence(wait_complete=True)` asks the application twice where it is: a `KinematicsData`
with the id of the sequence says that it has been taken, a `StateData` that is Ready, received after
the queue has been drained, that it is over. The replies may be old, and handlers of two threads
interleave; that the conclusion is right all the same rests on the order of things. The sockets keep
theirs, and the thread of the bridge, which alone answers a `StateRequest`, has nothing else to do
until it is through with the sequence. -/

namespace ReflectPytest

open SyncBus Mailbox

variable {F : Type} [FloatOps F]

namespace Fixtures

open App

/-! ## The session -/

/-- The condition on the steps of the application in a session. -/
def Undisturbed (cmd : MotorSequencePayload) (s : Session F) :
    Option (Thread × Option (AppFrame F)) → Prop
  | some a => Sole cmd s.app a
  | none => True

instance [DecidableEq F] (cmd : MotorSequencePayload) (s : Session F)
    (a : Option (Thread × Option (AppFrame F))) : Decidable (Undisturbed cmd s a) := by
  unfold Undisturbed
  split <;> infer_instance

/-- Nothing in the list is telemetry about the command. -/
def Unseen (cmdId : Nat) (l : List (Msg F)) : Prop :=
  ∀ kin, .kinematicsData kin ∈ l → kin.cmdId ≠ cmdId

/-- A reply in the list that the system is Ready is right. -/
def Truthful (st : CommandStage) (w : World F) (l : List (Msg F)) : Prop :=
  .stateData ⟨.ready⟩ ∈ l → Over st w

section Lists

omit [FloatOps F]

variable {cmdId : Nat} {st st' : CommandStage} {w w' : World F} {l l' : List (Msg F)}

theorem Unseen.sublist (h : Unseen cmdId l) (hsub : l'.Sublist l) : Unseen cmdId l' :=
  fun kin hkin => h kin (hsub.subset hkin)

theorem Truthful.sublist (h : Truthful st w l) (hsub : l'.Sublist l) : Truthful st w l' :=
  fun hmem => h (hsub.subset hmem)

theorem Truthful.later (h : Truthful st w l) (hover : Over st w → Over st' w') :
    Truthful st' w' l := fun hmem => hover (h hmem)

theorem Unseen.append (h : Unseen cmdId l) (h' : Unseen cmdId l') : Unseen cmdId (l ++ l') :=
  fun kin hkin => (List.mem_append.1 hkin).elim (h kin) (h' kin)

theorem Truthful.append (h : Truthful st w l) (h' : Truthful st w l') :
    Truthful st w (l ++ l') := fun hmem => (List.mem_append.1 hmem).elim h h'

theorem truthful_nil : Truthful st w [] := fun hmem => absurd hmem List.not_mem_nil

end Lists

/-- What has been sent to the client: first what was sent before the sequence was published, which
    does not know of it, then what is right about its end. -/
def InOrder (cmdId : Nat) (st : CommandStage) (w : World F) (l : List (Msg F)) : Prop :=
  ∃ old new, l = old ++ new ∧ Unseen cmdId old ∧ Truthful st w new ∧ (st = .waiting → new = [])

/-- How far the test has got in `dispatch_sequence`, with `rest` to come. -/
inductive Progress (cmd : MotorSequencePayload) (rest : List (Statement F)) (st : CommandStage) :
    Session F → Prop
  /-- Up to the acceptance. -/
  | requesting {s : Session F}
      (hcontrol : s.control ∈ ([
        .running (.send (.motorSequence cmd) :: .wait (waitForAcceptance cmd.cmdId) ::
          .wait (waitForStarted cmd.cmdId) :: .wait waitForCompletion :: rest),
        .running (.wait (waitForAcceptance cmd.cmdId) :: .wait (waitForStarted cmd.cmdId) ::
          .wait waitForCompletion :: rest),
        .receiving (waitForAcceptance cmd.cmdId) (.wait (waitForStarted cmd.cmdId) ::
          .wait waitForCompletion :: rest)] : List (Control F)))
      (hqueue : Unseen cmd.cmdId s.queue)
      (horder : InOrder cmd.cmdId st s.app.world s.toClient) : Progress cmd rest st s
  /-- Up to the next drain. -/
  | accepted {s : Session F}
      (hcontrol : s.control ∈ ([
        .running (.wait (waitForStarted cmd.cmdId) :: .wait waitForCompletion :: rest),
        .receiving (waitForStarted cmd.cmdId) (.wait waitForCompletion :: rest),
        .running (.wait waitForCompletion :: rest)] : List (Control F)))
      (hstage : st ≠ .waiting) (htruth : Truthful st s.app.world s.toClient) :
      Progress cmd rest st s
  /-- Waiting for a reply after it. -/
  | completing {s : Session F} (hcontrol : s.control = .receiving waitForCompletion rest)
      (hstage : st ≠ .waiting) (hqueue : Truthful st s.app.world s.queue)
      (htruth : Truthful st s.app.world s.toClient) : Progress cmd rest st s
  | returned {s : Session F} (hover : Over st s.app.world) : Progress cmd rest st s
  | failed {s : Session F} (hcontrol : s.control = .failed) : Progress cmd rest st s

section Keeping

omit [FloatOps F]

variable {cmd : MotorSequencePayload} {rest : List (Statement F)} {st st' : CommandStage}
  {s s' : Session F}

/-- A step that is none of the client's. -/
theorem Progress.around (h : Progress cmd rest st s) (hcontrol : s'.control = s.control)
    (hqueue : s'.queue = s.queue) (hlater : st ≠ .waiting → st' ≠ .waiting)
    (hover : Over st s.app.world → Over st' s'.app.world)
    (horder : InOrder cmd.cmdId st s.app.world s.toClient →
      InOrder cmd.cmdId st' s'.app.world s'.toClient)
    (htruth : st ≠ .waiting → Truthful st s.app.world s.toClient →
      Truthful st' s'.app.world s'.toClient) : Progress cmd rest st' s' := by
  cases h with
  | requesting hc hq ho => exact .requesting (hcontrol ▸ hc) (hqueue ▸ hq) (horder ho)
  | accepted hc hs ht => exact .accepted (hcontrol ▸ hc) (hlater hs) (htruth hs ht)
  | completing hc hs hq ht =>
      exact .completing (hcontrol.trans hc) (hlater hs) (hqueue ▸ hq.later hover) (htruth hs ht)
  | returned ho => exact .returned (hover ho)
  | failed hc => exact .failed (hcontrol.trans hc)

theorem InOrder.sublist {cmdId : Nat} {w : World F} {l l' : List (Msg F)}
    (h : InOrder cmdId st w l) (hsub : l'.Sublist l) : InOrder cmdId st w l' := by
  obtain ⟨old, new, rfl, hold, hnew, hnone⟩ := h
  obtain ⟨old', new', rfl, hold', hnew'⟩ := List.sublist_append_iff.1 hsub
  refine ⟨old', new', rfl, hold.sublist hold', hnew.sublist hnew', fun hst => ?_⟩
  rw [hnone hst] at hnew'
  exact List.sublist_nil.1 hnew'

/-- The first message the client has been sent: if it is about the command, all that come after it
    are right. -/
theorem InOrder.first {cmdId : Nat} {w : World F} {kin : KinematicsPayload F} {l : List (Msg F)}
    (h : InOrder cmdId st w (.kinematicsData kin :: l)) (hid : kin.cmdId = cmdId) :
    st ≠ .waiting ∧ Truthful st w l := by
  obtain ⟨old, new, heq, hold, hnew, hnone⟩ := h
  cases old with
  | cons m old =>
      obtain ⟨rfl, -⟩ := List.cons.inj heq
      exact absurd hid (hold kin List.mem_cons_self)
  | nil =>
      obtain rfl : _ = new := heq
      exact ⟨fun hst => List.cons_ne_nil _ _ (hnone hst), hnew.sublist (List.sublist_cons_self _ _)⟩

end Keeping

section Sending

variable {pf : Platform F} {c c' : AppConfig F} {a : Thread × Option (AppFrame F)}
  {cmd : MotorSequencePayload} {ph : Phase} {st : CommandStage}

omit [FloatOps F] in
theorem mem_sent {f : Option (AppFrame F)} {m : Msg F} (h : m ∈ sent f) :
    f = some (.call .udpBridge m) := by
  unfold sent at h
  split at h
  · rw [List.mem_singleton.1 h]
  · exact absurd h List.not_mem_nil

/-- From the publish of the sequence on, only a right reply that the system is Ready is sent. -/
theorem sent_truthful (hst : AtStage cmd c ph st) (hreach : App.Reachable pf c)
    (hstep : (machine pf).Step c a c') (hwaiting : st ≠ .waiting) :
    Truthful st c.world (sent a.2) := by
  intro hmem
  obtain ⟨t, f⟩ := a
  obtain rfl := mem_sent hmem
  have hf := hstep.mem_stack
  cases st with
  | waiting => exact absurd rfl hwaiting
  | given =>
      by_cases ht : t = .bridge
      · subst ht
        rw [Given.bridge hst] at hf
        exact nomatch List.mem_singleton.1 hf
      · exact absurd (.inr rfl) (reachable_discreet pf hreach t _ hf ht)
  | executed => exact ⟨rfl, Executed.replies hst t _ hf (.inr ⟨_, rfl⟩)⟩

/-- Before, no telemetry about it is. -/
theorem sent_unseen (hw : Waiting cmd c) (hzero : cmd.cmdId ≠ 0) (hreach : App.Reachable pf c)
    (hstep : (machine pf).Step c a c') : Unseen cmd.cmdId (sent a.2) := by
  intro kin hmem hid
  obtain ⟨t, f⟩ := a
  obtain rfl := mem_sent hmem
  have hpublished := called_published hreach hstep.mem_stack
  obtain ⟨later, earlier, hsplit⟩ := List.append_of_mem hpublished
  have hissued := (reachable_traced pf hreach).published later _ earlier hsplit kin.cmdId rfl
  rcases hissued with h0 | ⟨cmd', hcmd', hid'⟩
  · exact hzero (hid.symm.trans h0)
  · refine hw.fresh cmd' ?_ (hid'.trans hid)
    rw [hsplit]
    exact List.mem_append_right _ (List.mem_cons_of_mem _ hcmd')

/-- What a step of the application sends takes its place in the order. -/
theorem InOrder.send {st' : CommandStage} {l : List (Msg F)} (h : InOrder cmd.cmdId st c.world l)
    (hst : AtStage cmd c ph st) (hzero : cmd.cmdId ≠ 0) (hreach : App.Reachable pf c)
    (hstep : (machine pf).Step c a c') (hlater : st ≠ .waiting → st' ≠ .waiting)
    (hover : Over st c.world → Over st' c'.world) :
    InOrder cmd.cmdId st' c'.world (l ++ sent a.2) := by
  obtain ⟨old, new, rfl, hold, hnew, hnone⟩ := h
  by_cases hwaiting : st = .waiting
  · subst hwaiting
    obtain rfl := hnone rfl
    refine ⟨old ++ sent a.2, [], by simp, ?_, truthful_nil, fun _ => rfl⟩
    exact hold.append (sent_unseen hst hzero hreach hstep)
  · refine ⟨old, new ++ sent a.2, List.append_assoc .., hold, ?_,
      fun h => absurd h (hlater hwaiting)⟩
    exact (hnew.append (sent_truthful hst hreach hstep hwaiting)).later hover

end Sending

/-! ## Steps of the client -/

section Client

omit [FloatOps F]

variable {s s' : Session F}

theorem ClientStep.sends {m : Msg F} {rest : List (Statement F)} (hstep : ClientStep s s')
    (h : s.control = .running (.send m :: rest)) :
    s' = { s with toBridge := s.toBridge ++ [m], control := .running rest } := by
  cases hstep with
  | send h' =>
      obtain ⟨hm, hrest⟩ := List.cons.inj (Control.running.inj (h.symm.trans h'))
      obtain rfl := Statement.send.inj hm
      rw [hrest]
  | ask h' | expire h' =>
      exact nomatch (List.cons.inj (Control.running.inj (h.symm.trans h'))).1
  | pop h' | receive h' | keep h' | timeout h' => exact nomatch h.symm.trans h'

/-- Before a round of a loop: the deadline passes, or the round begins. -/
theorem ClientStep.asks {w : Wait F} {rest : List (Statement F)} (hstep : ClientStep s s')
    (h : s.control = .running (.wait w :: rest)) :
    s'.control = .failed ∨ s'.app = s.app ∧ s'.toClient.Sublist s.toClient ∧
      s'.queue = (if w.drains then [] else s.queue) ∧ s'.control = .receiving w rest := by
  cases hstep with
  | @ask w' rest' discarded left h' hleft hdrain =>
      obtain ⟨hw, rfl⟩ := List.cons.inj (Control.running.inj (h.symm.trans h'))
      obtain rfl := Statement.wait.inj hw
      exact .inr ⟨rfl, hleft ▸ List.sublist_append_right _ _, rfl, rfl⟩
  | expire _ => exact .inl rfl
  | send h' => exact nomatch (List.cons.inj (Control.running.inj (h.symm.trans h'))).1
  | pop h' | receive h' | keep h' | timeout h' => exact nomatch h.symm.trans h'

/-- In `recv_msg`: it finds a message of the expected type in the queue or in the socket, it puts
    another one into the queue, or it gives up and the loop goes around. -/
theorem ClientStep.receives {w : Wait F} {rest : List (Statement F)} (hstep : ClientStep s s')
    (h : s.control = .receiving w rest) :
    (∃ m queue, m ∈ s.queue ∧ m.id = w.expectedId ∧ queue.Sublist s.queue ∧
      s' = { s with queue := queue, control := .after w rest m }) ∨
    (∃ m left, s.toClient = m :: left ∧ m.id = w.expectedId ∧
      s' = { s with toClient := left, control := .after w rest m }) ∨
    (∃ m left, s.toClient = m :: left ∧ m.id ≠ w.expectedId ∧
      s' = { s with toClient := left, queue := s.queue ++ [m] }) ∨
    s' = { s with control := .running (.wait w :: rest) } := by
  cases hstep with
  | @pop w' rest' m queue h' htake =>
      obtain ⟨rfl, rfl⟩ := Control.receiving.inj (h.symm.trans h')
      obtain ⟨hm, before, after, hqueue, -, -⟩ := takeFirst_eq_some htake
      refine .inl ⟨m, queue, ?_, of_decide_eq_true hm, takeFirst_sublist htake, rfl⟩
      rw [hqueue]
      exact List.mem_append_right _ List.mem_cons_self
  | @receive w' rest' m left h' _ hnext hid =>
      obtain ⟨rfl, rfl⟩ := Control.receiving.inj (h.symm.trans h')
      exact .inr (.inl ⟨m, left, hnext, hid, rfl⟩)
  | @keep w' rest' m left h' _ hnext hid =>
      obtain ⟨rfl, rfl⟩ := Control.receiving.inj (h.symm.trans h')
      exact .inr (.inr (.inl ⟨m, left, hnext, hid, rfl⟩))
  | @timeout w' rest' h' _ =>
      obtain ⟨rfl, rfl⟩ := Control.receiving.inj (h.symm.trans h')
      exact .inr (.inr (.inr rfl))
  | send h' | ask h' | expire h' => exact nomatch h.symm.trans h'

/-- The loops that wait for telemetry about the command accept nothing else. -/
theorem accepts_kinematicsData {w : Wait F} {cmdId : Nat} {m : Msg F}
    (hw : w = waitForAcceptance cmdId ∨ w = waitForStarted cmdId) (h : w.accepts m = true) :
    ∃ kin, m = .kinematicsData kin ∧ kin.cmdId = cmdId := by
  rcases hw with rfl | rfl <;> cases m <;>
    simp only [waitForAcceptance, waitForStarted, Bool.false_eq_true] at h
  · exact ⟨_, rfl, of_decide_eq_true h⟩
  · exact ⟨_, rfl, of_decide_eq_true (Bool.and_eq_true_iff.1 h).1⟩

theorem accepts_ready {m : Msg F} (h : (waitForCompletion : Wait F).accepts m = true) :
    m = .stateData ⟨.ready⟩ := by
  cases m <;> simp only [waitForCompletion, reports, Bool.false_eq_true] at h
  next s => exact congrArg Msg.stateData (congrArg StatePayload.mk (of_decide_eq_true h))

variable {cmd : MotorSequencePayload} {rest : List (Statement F)} {st : CommandStage}

/-- Waiting for the acceptance. -/
theorem Progress.accepting (hstep : ClientStep s s')
    (hcontrol : s.control = .receiving (waitForAcceptance cmd.cmdId)
      (.wait (waitForStarted cmd.cmdId) :: .wait waitForCompletion :: rest))
    (hqueue : Unseen cmd.cmdId s.queue)
    (horder : InOrder cmd.cmdId st s.app.world s.toClient) : Progress cmd rest st s' := by
  rcases hstep.receives hcontrol with ⟨m, queue, hm, hid, hsub, rfl⟩ | ⟨m, left, hnext, hid, rfl⟩ |
    ⟨m, left, hnext, hid, rfl⟩ | rfl
  · -- What is in the queue is older than the sequence.
    by_cases haccepts : (waitForAcceptance cmd.cmdId).accepts m = true
    · obtain ⟨kin, rfl, hkin⟩ := accepts_kinematicsData (.inl rfl) haccepts
      exact absurd hkin (hqueue kin hm)
    · refine .requesting ?_ (hqueue.sublist hsub) horder
      simp [Control.after, haccepts]
  · rw [hnext] at horder
    by_cases haccepts : (waitForAcceptance cmd.cmdId).accepts m = true
    · obtain ⟨kin, rfl, hkin⟩ := accepts_kinematicsData (.inl rfl) haccepts
      obtain ⟨hstage, htruth⟩ := horder.first hkin
      refine .accepted ?_ hstage htruth
      simp [Control.after, haccepts]
    · refine .requesting ?_ hqueue (horder.sublist (List.sublist_cons_self _ _))
      simp [Control.after, haccepts]
  · rw [hnext] at horder
    refine .requesting (by simp [hcontrol]) (hqueue.append fun kin hkin => ?_)
      (horder.sublist (List.sublist_cons_self _ _))
    exact absurd (congrArg Msg.id (List.mem_singleton.1 hkin)).symm hid
  · exact .requesting (by simp) hqueue horder

/-- Waiting for the reply after the drain. -/
theorem Progress.finishing (hstep : ClientStep s s')
    (hcontrol : s.control = .receiving waitForCompletion rest) (hstage : st ≠ .waiting)
    (hqueue : Truthful st s.app.world s.queue) (htruth : Truthful st s.app.world s.toClient) :
    Progress cmd rest st s' := by
  rcases hstep.receives hcontrol with ⟨m, queue, hm, hid, hsub, rfl⟩ | ⟨m, left, hnext, hid, rfl⟩ |
    ⟨m, left, hnext, hid, rfl⟩ | rfl
  · by_cases haccepts : (waitForCompletion : Wait F).accepts m = true
    · exact .returned (hqueue (accepts_ready haccepts ▸ hm))
    · exact .accepted (by simp [Control.after, haccepts]) hstage htruth
  · rw [hnext] at htruth
    by_cases haccepts : (waitForCompletion : Wait F).accepts m = true
    · exact .returned (htruth (accepts_ready haccepts ▸ List.mem_cons_self))
    · exact .accepted (by simp [Control.after, haccepts]) hstage
        (htruth.sublist (List.sublist_cons_self _ _))
  · rw [hnext] at htruth
    refine .completing hcontrol hstage (hqueue.append (htruth.sublist ?_))
      (htruth.sublist (List.sublist_cons_self _ _))
    exact List.singleton_sublist.2 List.mem_cons_self
  · exact .accepted (by simp) hstage htruth

/-- **Step lemma for the client.** -/
theorem Progress.client (h : Progress cmd rest st s) (hstep : ClientStep s s') :
    Progress cmd rest st s' := by
  cases h with
  | requesting hcontrol hqueue horder =>
      simp only [List.mem_cons, List.not_mem_nil, or_false] at hcontrol
      rcases hcontrol with hcontrol | hcontrol | hcontrol
      · obtain rfl := hstep.sends hcontrol
        exact .requesting (by simp) hqueue horder
      · rcases hstep.asks hcontrol with hfailed | ⟨happ, hsub, hq, hc⟩
        · exact .failed hfailed
        · exact .requesting (by simp [hc]) (hq ▸ hqueue) (happ ▸ horder.sublist hsub)
      · exact .accepting hstep hcontrol hqueue horder
  | accepted hcontrol hstage htruth =>
      simp only [List.mem_cons, List.not_mem_nil, or_false] at hcontrol
      rcases hcontrol with hcontrol | hcontrol | hcontrol
      · rcases hstep.asks hcontrol with hfailed | ⟨happ, hsub, hq, hc⟩
        · exact .failed hfailed
        · exact .accepted (by simp [hc]) hstage (happ ▸ htruth.sublist hsub)
      · rcases hstep.receives hcontrol with ⟨m, queue, hm, hid, hsub, rfl⟩ |
          ⟨m, left, hnext, hid, rfl⟩ | ⟨m, left, hnext, hid, rfl⟩ | rfl
        · refine .accepted ?_ hstage htruth
          simp only [Control.after]
          split <;> simp
        · refine .accepted ?_ hstage (htruth.sublist (hnext ▸ List.sublist_cons_self _ _))
          simp only [Control.after]
          split <;> simp
        · exact .accepted (by simp [hcontrol]) hstage
            (htruth.sublist (hnext ▸ List.sublist_cons_self _ _))
        · exact .accepted (by simp) hstage htruth
      · rcases hstep.asks hcontrol with hfailed | ⟨happ, hsub, hq, hc⟩
        · exact .failed hfailed
        · -- The drain leaves nothing that could be old.
          have hempty : s'.queue = [] := hq
          exact .completing hc hstage (hempty ▸ truthful_nil) (happ ▸ htruth.sublist hsub)
  | completing hcontrol hstage hqueue htruth => exact .finishing hstep hcontrol hstage hqueue htruth
  | returned hover =>
      refine .returned ?_
      cases hstep <;> exact hover
  | failed hcontrol =>
      cases hstep with
      | send h | ask h | expire h | pop h | receive h | keep h | timeout h =>
          exact nomatch hcontrol.symm.trans h

end Client

/-! ## Runs -/

variable {pf : Platform F} {cmd : MotorSequencePayload} {rest : List (Statement F)}

/-- The invariant of the dispatch. -/
def Dispatching (pf : Platform F) (cmd : MotorSequencePayload) (rest : List (Statement F))
    (s : Session F) : Prop :=
  App.Reachable pf s.app ∧ ∃ ph st, InPhase s.app ph ∧ OneTick s.app ∧ AtStage cmd s.app ph st ∧
    Carried pf cmd s.app ph st ∧ Progress cmd rest st s

/-- A command that can be executed: it is not the initial id, and it starts at once. -/
structure Startable (cmd : MotorSequencePayload) : Prop where
  cmdId : cmd.cmdId ≠ 0
  nonempty : 1 ≤ cmd.numSteps
  starts : 0 < (cmd.steps 0).durationUs

/-- **Step lemma.** -/
theorem Dispatching.step {s s' : Session F} {a : Option (Thread × Option (AppFrame F))}
    (hdt : 0 < pf.kTickUs) (hcmd : Startable cmd) (h : Dispatching pf cmd rest s)
    (hundisturbed : Undisturbed cmd s a) (hstep : Step pf s a s') :
    Dispatching pf cmd rest s' := by
  obtain ⟨hreach, ph, st, hph, htick, hst, hcarried, hprogress⟩ := h
  -- A step of the application takes the sequence further and sends its replies.
  have happ : ∀ {b : Thread × Option (AppFrame F)}, (machine pf).Step s.app b s'.app →
      Sole cmd s.app b → s'.control = s.control → s'.queue = s.queue →
      s'.toClient = s.toClient ++ sent b.2 → Dispatching pf cmd rest s' := by
    intro b hb hsole hcontrol hqueue hclient
    obtain ⟨ph', hph', htick', hchange⟩ := step_change hph htick hb
    obtain ⟨st', hst', hlater, hover, hexecuted⟩ := hst.step hreach hph hsole hb hph' hchange
    refine ⟨hreach.tail ⟨b, trivial, hb⟩, ph', st', hph', htick', hst', ?_, ?_⟩
    · exact hcarried.step hdt hcmd.nonempty hcmd.starts hph htick (reachable_ticks pf hreach).2 hb
        hchange hst hst' hexecuted
    refine hprogress.around hcontrol hqueue hlater hover (fun ho => ?_) fun hs ht => ?_
    · rw [hclient]
      exact ho.send hst hcmd.cmdId hreach hb hlater hover
    · rw [hclient]
      exact (ht.append (sent_truthful hst hreach hb hs)).later hover
  cases hstep with
  | app hstep _ => exact happ hstep hundisturbed rfl rfl rfl
  | @deliver m rest' hnext hidle =>
      by_cases hauth : authorized m = true
      · refine happ (b := (.bridge, none)) ?_ trivial rfl rfl (List.append_nil _).symm
        show (machine pf).Step s.app _ (accept s.app m)
        rw [accept, if_pos hauth]
        exact Machine.Step.start (S := machine pf) hidle (Start.datagram hauth)
      · have hsame : accept s.app m = s.app := if_neg hauth
        refine ⟨hsame.symm ▸ hreach, ph, st, hsame.symm ▸ hph, hsame.symm ▸ htick, hsame.symm ▸ hst,
          hsame.symm ▸ hcarried, hprogress.around rfl rfl id ?_ ?_ fun _ => ?_⟩ <;>
          exact hsame.symm ▸ id
  | intrude m =>
      exact ⟨hreach, ph, st, hph, htick, hst, hcarried,
        hprogress.around rfl rfl id id id fun _ => id⟩
  | lose hbridge hclient =>
      exact ⟨hreach, ph, st, hph, htick, hst, hcarried, hprogress.around rfl rfl id id
        (fun ho => ho.sublist hclient) fun _ ht => ht.sublist hclient⟩
  | client hstep =>
      have hprogress' := hprogress.client hstep
      have hsame : s'.app = s.app := by cases hstep <;> rfl
      exact ⟨hsame ▸ hreach, ph, st, hsame ▸ hph, hsame ▸ htick, hsame ▸ hst, hsame ▸ hcarried,
        hprogress'⟩

theorem Run.dispatching {s₀ s₁ : Session F} (hdt : 0 < pf.kTickUs) (hcmd : Startable cmd)
    (h : Dispatching pf cmd rest s₀) (hrun : Run pf (Undisturbed cmd) s₀ s₁) :
    Dispatching pf cmd rest s₁ := by
  induction hrun with
  | refl => exact h
  | tail _ hlast ih =>
      obtain ⟨a, hundisturbed, hstep⟩ := hlast
      exact ih.step hdt hcmd hundisturbed hstep

/-- The client only ever has what the application published. -/
def Received (s : Session F) : Prop :=
  ∀ m ∈ s.toClient ++ s.queue, .published m ∈ s.app.world.history

theorem reachable_received (pf : Platform F) {s : Session F} (h : Reachable pf s) :
    Received s := by
  obtain ⟨script, hrun⟩ := h
  suffices hboth : App.Reachable pf s.app ∧ Received s from hboth.2
  induction hrun with
  | refl => exact ⟨Relation.ReflTransGen.refl, fun m hm => absurd hm List.not_mem_nil⟩
  | @tail s s' _ hlast ih =>
      obtain ⟨hreach, hreceived⟩ := ih
      obtain ⟨a, -, hstep⟩ := hlast
      refine ⟨Run.project (P := fun _ _ => True) (.single ⟨a, trivial, hstep⟩) hreach,
        fun m hm => ?_⟩
      cases hstep with
      | @app b _ hb _ =>
          have hkept := (step_adds pf hreach hb).mem (r := .published m)
          simp only [List.mem_append] at hm
          rcases hm with (hm | hm) | hm
          · exact hkept (hreceived m (List.mem_append_left _ hm))
          · obtain ⟨t, f⟩ := b
            obtain rfl := mem_sent hm
            exact hkept (called_published hreach hb.mem_stack)
          · exact hkept (hreceived m (List.mem_append_right _ hm))
      | @deliver m' rest' _ _ =>
          have hsame : (accept s.app m').world = s.app.world := by
            unfold accept
            split <;> rfl
          exact hsame.symm ▸ hreceived m hm
      | intrude m' => exact hreceived m hm
      | lose _ hclient =>
          exact hreceived m ((hclient.append (List.Sublist.refl _)).subset hm)
      | client hclient =>
          cases hclient with
          | send _ | expire _ | timeout _ _ => exact hreceived m hm
          | @ask w _ discarded left _ hleft _ =>
              refine hreceived m ?_
              rw [hleft]
              rcases List.mem_append.1 hm with hm | hm
              · exact List.mem_append_left _ (List.mem_append_right _ hm)
              · refine List.mem_append_right _ ?_
                revert hm
                cases w.drains with
                | true => exact fun hm => absurd hm List.not_mem_nil
                | false => exact id
          | pop _ htake =>
              exact hreceived m (((List.Sublist.refl _).append (takeFirst_sublist htake)).subset hm)
          | receive _ _ hnext _ =>
              refine hreceived m ?_
              rw [hnext]
              exact List.mem_cons_of_mem _ hm
          | keep _ _ hnext _ =>
              refine hreceived m ?_
              rw [hnext]
              simp only [List.mem_append, List.mem_cons, List.not_mem_nil, or_false] at hm ⊢
              tauto

/-- The ticks of the steps, one after another, each for as long as it lasts. -/
def stepTicks (dt cmdId : Nat) (steps : List MotorSubCmd) : List PhysicsTickPayload :=
  steps.flatMap fun step =>
    List.replicate (ticksOf dt step.durationUs) ⟨cmdId, clampRpm step.speedRpm, dt⟩

/-- They are those of the payload's schedule. -/
theorem schedule_sequencePayload (dt cmdId : Nat) {steps : List MotorSubCmd}
    (hfits : steps.length ≤ maxSteps) :
    (schedule dt (sequencePayload cmdId steps)).map (stepTick dt (sequencePayload cmdId steps)) =
      stepTicks dt cmdId steps := by
  have hsteps : (List.range steps.length).map (fun i => steps.getD i ⟨0, 0⟩) = steps := by
    refine List.ext_getElem (by simp) fun i hi hi' => ?_
    simp [List.getElem?_eq_getElem hi']
  have hmin : min steps.length kMaxSubCmds = steps.length := min_eq_left hfits
  have hstep : ∀ i ∈ List.range steps.length,
      ((sequencePayload cmdId steps).steps.get? i).getD default = steps.getD i ⟨0, 0⟩ := by
    intro i hi
    have hlt : i < kMaxSubCmds := lt_of_lt_of_le (List.mem_range.1 hi) hfits
    rw [StdArray.get?_of_lt _ hlt]
    rfl
  unfold stepTicks schedule scheduleFrom
  rw [show (sequencePayload cmdId steps).numSteps = steps.length from rfl, hmin, Nat.sub_zero,
    ← List.range_eq_range', List.map_flatMap]
  conv_rhs => rw [← hsteps, List.flatMap_map]
  refine List.flatMap_congr fun i hi => ?_
  simp only [List.map_replicate, stepTick, nextSpeed, hstep i hi]
  rfl

/-- **A dispatch that returns is done.** Whatever is lost, however late a reply is and however the
    threads of the application interleave: if nothing else commands the motor, then when
    `dispatch_sequence(cmd_id, steps, wait_complete=True)` returns, for an id that has not been used
    before and a first step that lasts, the ticks with this id have driven exactly these steps, each
    for its duration, and then none; `MotorService` is off and the system is Ready. -/
theorem dispatchSequence_complete (pf : Platform F) {s₀ s₁ : Session F} {cmdId : Nat}
    {first : MotorSubCmd} {others : List MotorSubCmd} {waitAccepted waitStarted : Bool}
    {rest : List (Statement F)} (hfits : (first :: others).length ≤ maxSteps)
    (hdt : 0 < pf.kTickUs) (hreach : Reachable pf s₀)
    (hcall : s₀.control = .running
      (dispatchSequence cmdId (first :: others) waitAccepted waitStarted true ++ rest))
    (hzero : cmdId ≠ 0) (hfirst : 0 < first.durationUs)
    (hfresh : ∀ cmd, .published (.motorSequence cmd) ∈ s₀.app.world.history → cmd.cmdId ≠ cmdId)
    (hidle : ∀ t, ∀ f ∈ s₀.app.stack t, ¬ Commands f)
    (hrun : Run pf (Undisturbed (sequencePayload cmdId (first :: others))) s₀ s₁)
    (hreturn : s₁.control = .running rest) :
    s₁.app.world.motor.currentCmd =
        MotorService.accept (sequencePayload cmdId (first :: others)) ∧
      s₁.app.world.motor.active = false ∧ s₁.app.world.state.state = .ready ∧
      ∃ idle, ticksFor cmdId s₁.app.world.history = stepTicks pf.kTickUs cmdId (first :: others) ++
        List.replicate idle ⟨cmdId, 0, pf.kTickUs⟩ := by
  have hunseen : Unseen cmdId (s₀.toClient ++ s₀.queue) := by
    intro kin hkin hid
    obtain ⟨later, earlier, hsplit⟩ := List.append_of_mem (reachable_received pf hreach _ hkin)
    have hissued := (reachable_traced pf hreach.app).published later _ earlier hsplit kin.cmdId rfl
    rcases hissued with h0 | ⟨cmd', hcmd', hid'⟩
    · exact hzero (hid.symm.trans h0)
    · refine hfresh cmd' ?_ (hid'.trans hid)
      rw [hsplit]
      exact List.mem_append_right _ (List.mem_cons_of_mem _ hcmd')
  obtain ⟨ph, hph, htick, -⟩ := run_phase (I := fun _ _ => True) trivial
    (fun _ _ _ _ _ _ _ _ _ _ _ => trivial) hreach.app
  have hwaiting : Waiting (sequencePayload cmdId (first :: others)) s₀.app := ⟨hfresh, hidle⟩
  have hcmd : Startable (sequencePayload cmdId (first :: others)) :=
    ⟨hzero, Nat.le_add_left 1 _, hfirst⟩
  have hstart : Dispatching pf (sequencePayload cmdId (first :: others)) rest s₀ := by
    refine ⟨hreach.app, ph, .waiting, hph, htick, hwaiting, ?_, .requesting ?_ ?_ ?_⟩
    · exact hwaiting.unheard hzero (reachable_traced pf hreach.app)
        (reachable_ticks pf hreach.app).2
    · rw [hcall]
      unfold dispatchSequence
      split <;> simp [sequencePayload]
    · exact hunseen.sublist (List.sublist_append_right _ _)
    · exact ⟨s₀.toClient, [], by simp, hunseen.sublist (List.sublist_append_left _ _), truthful_nil,
        fun _ => rfl⟩
  obtain ⟨hreach', ph', st, -, htick', hst, hcarried, hprogress⟩ := hrun.dispatching hdt hcmd hstart
  have hover : Over st s₁.app.world := by
    cases hprogress with
    | returned hover => exact hover
    | completing hcontrol _ _ _ => exact nomatch hreturn.symm.trans hcontrol
    | failed hcontrol => exact nomatch hreturn.symm.trans hcontrol
    | requesting hcontrol _ _ | accepted hcontrol _ _ =>
        -- Before it returns, the test still has a loop to leave.
        exfalso
        simp only [hreturn, List.mem_cons, List.not_mem_nil, or_false, Control.running.injEq,
          reduceCtorEq, false_or] at hcontrol
        rcases hcontrol with h | h <;>
          · have hlength := congrArg List.length h
            simp only [List.length_cons] at hlength
            omega
  obtain ⟨rfl, hoff, hready⟩ := hover
  have he : Executed _ s₁.app ph' := hst
  have hsched : OnSchedule pf _ s₁.app ph' := hcarried
  have hticks := hsched.ticksFor_eq hoff (reachable_ticks pf hreach').1 htick'
  rw [schedule_sequencePayload _ _ hfits] at hticks
  exact ⟨he.command, hoff, hready, hticks⟩

/-- Drive at 1000 rpm for 20 ms and at full speed for another 10 ms. The first tick comes before the
    loop that waits for the start, the others before the loop that waits for the end. -/
def twoSteps : List MotorSubCmd := [⟨1000, 20000⟩, ⟨7000, 10000⟩]

def twoStepsMoves : List Move :=
  let bridge (n : Nat) : List Move := List.replicate n (.advance .bridge)
  let clock (n : Nat) : List Move := List.replicate n (.advance .clock)
  [[.client, .client, .deliver], bridge 10, [.deliver], bridge 7,
    [.client, .snapshot, .tick], clock 11, [.client, .deliver], bridge 7,
    [.client, .snapshot, .tick], clock 18, [.snapshot, .tick], clock 18,
    [.client, .deliver], bridge 5, [.client]].flatten

/-- The test is through. -/
def isThrough (s : Session F) : Bool :=
  match s.control with
  | .running rest => rest.isEmpty
  | _ => false

theorem twoSteps_complete : ∃ s : Session ℚ, s.control = .running [] ∧
    s.app.world.motor.active = false ∧ ∃ idle, ticksFor 7 s.app.world.history =
      [⟨7, 1000, 10000⟩, ⟨7, 1000, 10000⟩, ⟨7, 6000, 10000⟩] ++
        List.replicate idle ⟨7, 0, 10000⟩ := by
  let pf : Platform ℚ := .libstdcxx fun _ _ => 0
  let script : List (Statement ℚ) := dispatchSequence 7 twoSteps false false true
  have hplay : ((play pf (Undisturbed (sequencePayload 7 twoSteps)) (start script)
      twoStepsMoves).map isThrough) = some true := by
    decide +kernel
  obtain ⟨s, hs, hcontrol⟩ := Option.map_eq_some_iff.1 hplay
  have hreturn : s.control = .running [] := by
    unfold isThrough at hcontrol
    split at hcontrol
    · next rest hrunning => rw [hrunning, List.isEmpty_iff.1 hcontrol]
    · exact absurd hcontrol Bool.false_ne_true
  have hcall : (start script).control =
      .running (dispatchSequence 7 twoSteps false false true ++ []) :=
    congrArg Control.running (List.append_nil _).symm
  have hreach : Reachable pf (start script) := ⟨script, Relation.ReflTransGen.refl⟩
  obtain ⟨-, hoff, -, idle, hticks⟩ := dispatchSequence_complete pf (by decide) (by decide) hreach
    hcall (by decide) (by decide) (fun _ h => absurd h List.not_mem_nil)
    (fun _ _ h => absurd h List.not_mem_nil) (play_run hs) hreturn
  have hsteps : stepTicks 10000 7 twoSteps =
      [⟨7, 1000, 10000⟩, ⟨7, 1000, 10000⟩, ⟨7, 6000, 10000⟩] := by decide
  exact ⟨s, hreturn, hoff, idle, hticks.trans (congrArg (· ++ _) hsteps)⟩

end Fixtures

end ReflectPytest
