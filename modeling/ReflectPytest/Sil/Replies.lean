import ReflectPytest.Sil.Locks
import ReflectPytest.Sil.Cascades
import ReflectPytest.Library.Accounts
import ReflectPytest.Library.Progress
import Mathlib.Algebra.BigOperators.Group.List.Basic

set_option autoImplicit false

/-! # Replies

The bridge answers to one peer, the sender of the last datagram. A request is answered from inside
its own dispatch, by the thread that has just recorded its sender, so the reply goes back to it
before the next datagram can change the peer; and of all that a request sets off, only the service
asked publishes the reply, once. -/

namespace ReflectPytest

open LockedBus LockedBus.System

namespace Sil

variable {F : Type} [FloatOps F]

/-- The reply to a request. -/
def replyTo : MsgId → Option MsgId
  | .stateRequest => some .stateData
  | .kinematicsRequest => some .kinematicsData
  | .powerRequest => some .powerData
  | .thermalRequest => some .thermalData
  | .environmentData => some .environmentAck
  | _ => none

/-- The receivers of the datagrams with an identifier that a thread has sent, newest first. -/
def sentBy (t : Thread) (id : MsgId) (s : State F) : List SockAddr :=
  (s.sent.filter fun d => decide (d.thread = t ∧ d.payload.id = id)).map Sent.peer

omit [FloatOps F] in
/-- What `send` adds. -/
theorem sentBy_send (t' : Thread) (id : MsgId) (payload : Call F) (t : Thread) (s : State F) :
    sentBy t' id (send payload t s) =
      (if t = t' ∧ payload.id = id then s.peer.toList else []) ++ sentBy t' id s := by
  unfold send
  split
  · next hpeer => simp [hpeer]
  · next peer hpeer =>
      by_cases h : t = t' ∧ payload.id = id
      · simp [sentBy, hpeer, h]
      · simp only [sentBy, List.filter_cons, h, decide_false, if_false, List.nil_append,
          Bool.false_eq_true]

/-! ## What handlers do to the peer and the datagrams sent -/

/-- The action does not touch the bridge. -/
def Untouched (action : Thread → State F → State F) : Prop :=
  ∀ t s, (action t s).peer = s.peer ∧ (action t s).sent = s.sent

omit [FloatOps F] in
theorem Local.untouched {action : Thread → State F → State F} (h : Local action) :
    Untouched action :=
  fun t s => ⟨(h t s).1, (h t s).2.1⟩

/-! ## The account of one request -/

/-- The identifiers of replies. -/
def replies : List MsgId := [.stateData, .kinematicsData, .powerData, .thermalData, .environmentAck]

/-- How many replies a handler sends: the bridge sends the one it is called for, another service
    publishes the one it answers with. -/
def share (reply : MsgId) (h : Service) (id : MsgId) : Nat :=
  if h = .udpBridge then if id = reply then 1 else 0
  else if reply ∈ h.answers id then 1 else 0

/-- The replies the receive loop has sent while `client` is the peer. Ticks are not counted: what
    they send depends on the route. -/
def account (client : SockAddr) (reply : MsgId) :
    Account Thread Service (State F) (Call F) SockAddr where
  thread := .rx
  Given s := s.peer = some client
  view := sentBy .rx reply
  item := client
  Counted c := c.id ≠ .physicsTick
  share h c := share reply h c.id

variable {client : SockAddr} {reply : MsgId}

/-- A reply and its request send one. -/
def total (reply id : MsgId) : Nat := if id = reply ∨ replyTo id = some reply then 1 else 0

theorem sum_share (hreply : reply ∈ replies) (id : MsgId) :
    ((Service.all.filter fun h => decide (id ∈ h.subscribes)).map (share reply · id)).sum =
      total reply id := by
  simp only [replies, List.mem_cons, List.not_mem_nil, or_false] at hreply
  rcases hreply with rfl | rfl | rfl | rfl | rfl <;> cases id <;> decide

theorem due_eq (pf : Platform F) (order : List Service) (hreply : reply ∈ replies) (c : Call F) :
    (account client reply).due (system pf order) c = total reply c.id := by
  cases c with
  | message m | logData p =>
      rw [← sum_share hreply]
      exact ((pf.order_perm.filter _).map _).sum_eq
  | log p =>
      simp only [replies, List.mem_cons, List.not_mem_nil, or_false] at hreply
      rcases hreply with rfl | rfl | rfl | rfl | rfl <;> rfl

/-- What a handler publishes in answer to a message that is not a tick is neither a request nor a
    tick. -/
theorem answers_not_request {h : Service} {id id' : MsgId} (hid : id ≠ .physicsTick)
    (hid' : id' ∈ MsgId.log :: h.answers id) : id' ≠ .physicsTick ∧ replyTo id' = none := by
  cases h <;> cases id <;> first | exact absurd rfl hid | skip
  all_goals
    simp only [Service.answers, List.mem_cons, List.not_mem_nil, or_false] at hid'
    rcases hid' with rfl | rfl | rfl | rfl <;> decide

/-- A handler that does not answer with the reply sends none, nor does anything it calls. -/
theorem delivers_none (pf : Platform F) (order : List Service) (hreply : reply ∈ replies)
    {h : Service} {m : Msg F} (hh : h ≠ .udpBridge) (hm : m.id ≠ .physicsTick)
    (hanswer : reply ∉ h.answers m.id) :
    (account client reply).Delivers (system pf order) (onMessage pf h m) 0 := by
  refine Account.delivers_zero ((onMessage_local pf h m hh).mono fun action haction s => ?_)
    ((onMessage_emits pf h m).mono fun c hc => ?_)
  · obtain ⟨hpeer, hsent⟩ := haction.untouched .rx s
    refine ⟨fun hs => hpeer.trans hs, ?_⟩
    simp only [account, sentBy, hsent]
  · obtain ⟨htick, hrequest⟩ := answers_not_request hm hc
    refine ⟨htick, ?_⟩
    rw [due_eq pf order hreply, total, hrequest, if_neg]
    rintro (rfl | h)
    · rcases List.mem_cons.1 hc with hlog | hc
      · rw [hlog] at hreply
        exact absurd hreply (by decide)
      · exact hanswer hc
    · exact nomatch h

/-- The bridge forwards what it is called for to the peer. -/
theorem forwardToUdp_delivers (pf : Platform F) (order : List Service) (c : Call F) :
    (account client reply).Delivers (system pf order) (forwardToUdp c)
      (if c.id = reply then 1 else 0) := by
  intro s hs
  have hs : s.peer = some client := hs
  refine ⟨(send_peer c .rx s).trans hs, if c.id = reply then 1 else 0, 0, rfl, ?_, rfl⟩
  show sentBy .rx reply (send c .rx s) = _
  rw [sentBy_send, hs]
  by_cases hc : c.id = reply
  · simp [hc, account]
  · simp [hc, account]

section Answers

variable {pf : Platform F} {order : List Service}

omit [FloatOps F] in
theorem total_self (reply : MsgId) : total reply reply = 1 := if_pos (.inl rfl)

omit [FloatOps F] in
theorem total_log (hreply : reply ∈ replies) : total reply .log = 0 := by
  simp only [replies, List.mem_cons, List.not_mem_nil, or_false] at hreply
  rcases hreply with rfl | rfl | rfl | rfl | rfl <;> rfl

/-- Publishing the reply delivers it once. -/
theorem delivers_reply (hreply : reply ∈ replies) {c : Call F} (hc : c.id = reply)
    {next : Code F} (hnext : (account client reply).Delivers (system pf order) next 0) :
    (account client reply).Delivers (system pf order) (.call c next) 1 := by
  refine ⟨?_, 0, ?_, hnext⟩
  · show c.id ≠ .physicsTick
    rw [hc]
    rintro rfl
    exact absurd hreply (by decide)
  · rw [due_eq pf order hreply, hc, total_self]

/-- A log line delivers nothing. -/
theorem delivers_log (hreply : reply ∈ replies) {n : Nat} {p : LogPayload} {next : Code F}
    (hnext : (account client reply).Delivers (system pf order) next n) :
    (account client reply).Delivers (system pf order) (.call (.log p) next) n := by
  refine ⟨nofun, n, ?_, hnext⟩
  rw [due_eq pf order hreply, Call.id, total_log hreply, Nat.zero_add]

end Answers

/-- Every handler delivers its share. -/
theorem onMessage_delivers (pf : Platform F) (order : List Service) (hreply : reply ∈ replies)
    {h : Service} {m : Msg F} (hm : m.id ≠ .physicsTick) :
    (account client reply).Delivers (system pf order) (onMessage pf h m) (share reply h m.id) := by
  by_cases hh : h = .udpBridge
  · subst hh
    rw [onMessage_udpBridge]
    exact forwardToUdp_delivers pf order (.message m)
  rw [share, if_neg hh]
  split
  · next hanswer =>
      -- Only the five services asked answer with a reply.
      cases h <;> cases m <;> first | exact absurd hanswer List.not_mem_nil | skip
      all_goals
        simp only [Service.answers, Msg.id, List.mem_cons, List.not_mem_nil, or_false] at hanswer
        try rcases hanswer with rfl | rfl | rfl
      all_goals first | exact absurd hreply (by decide) | skip
      case environment.environmentData env =>
          intro s hs
          exact ⟨hs, 0, 1, rfl, rfl, delivers_log hreply (delivers_reply hreply rfl rfl)⟩
      all_goals
        intro s hs
        exact ⟨hs, 0, 1, rfl, rfl, delivers_reply hreply rfl rfl⟩
  · next hanswer => exact delivers_none pf order hreply hh hm hanswer

/-! ## The other threads -/

omit [FloatOps F] in
theorem Untouched.spares {action : Thread → State F → State F} (h : Untouched action) :
    (account (F := F) client reply).Spares action := by
  intro t _ s
  obtain ⟨hpeer, hsent⟩ := h t s
  exact ⟨fun hs => hpeer.trans hs, by simp only [account, sentBy, hsent]⟩

omit [FloatOps F] in
theorem forwardToUdp_spares (c : Call F) :
    (forwardToUdp c).Acts (account client reply).Spares := by
  refine ⟨fun t ht s => ⟨fun hs => (send_peer c t s).trans hs, ?_⟩, fun _ => trivial⟩
  show sentBy .rx reply (send c t s) = _
  rw [sentBy_send, if_neg fun h => ht h.1]
  rfl

omit [FloatOps F] in
theorem destroyAll_untouched (services : List Service) :
    (destroyAll (F := F) services).Acts Untouched := by
  induction services with
  | nil => trivial
  | cons h rest ih =>
      cases h <;> simp [destroyAll, destructor, finish, Prog.Acts, Untouched, ih]

/-- The account is kept by every handler in every thread. -/
theorem account_bookkeeping (pf : Platform F) (order : List Service) (client : SockAddr)
    (hreply : reply ∈ replies) : (account client reply).Bookkeeping (system pf order) where
  code := by
    intro h c hh hc
    cases c with
    | message m => exact onMessage_delivers pf order hreply hc
    | logData p =>
        show Account.Delivers _ _ (if h = .udpBridge then forwardToUdp (.logData p) else .done) _
        simp only [account, share]
        split
        · exact forwardToUdp_delivers pf order (.logData p)
        · have hnone : reply ∉ h.answers .log := by cases h <;> exact List.not_mem_nil
          rw [Call.id, if_neg hnone]
          rfl
    | log p =>
        obtain rfl : h = .log := List.mem_singleton.1 hh
        exact fun s hs => ⟨hs, 0, 0, rfl, rfl, rfl⟩
  spares h c := code_acts pf h c (fun h => h.untouched.spares) forwardToUdp_spares
  record := by
    intro c s
    cases c <;> exact ⟨id, rfl⟩
  start := by
    rintro t s s' p ht ⟨a, rfl, hbegins⟩
    obtain ⟨hpeer, hsent, -⟩ := begins_local hbegins
    refine ⟨fun hs => hpeer.trans hs, by simp only [account, sentBy, hsent], ?_⟩
    refine begins_acts hbegins (fun h => h.untouched.spares) (fun hrx => absurd hrx ht) ?_
    exact (destroyAll_untouched order).mono fun _ h => h.spares

/-! ## One request -/

/-- The receive loop takes a datagram of `sender` that is admitted as `m`. -/
structure Takes (pf : Platform F) (order : List Service) (c c' : SilConfig F) (sender : SockAddr)
    (m : Msg F) : Prop where
  idle : c.stack .rx = []
  begins : begins pf order c.world (.rx sender (some m)) =
    some (c.world, rxIteration sender (some m))
  eq : c' = c.put .rx c.world [.run none (rxIteration sender (some m))] (c.held .rx)

theorem Takes.step {pf : Platform F} {order : List Service} {c c' : SilConfig F}
    {sender : SockAddr} {m : Msg F} (h : Takes pf order c c' sender m) :
    (system pf order).Step c (.rx, none) c' := by
  rw [h.eq]
  exact .start h.idle ⟨_, rfl, h.begins⟩

omit [FloatOps F] in
theorem Takes.neverAwaits {pf : Platform F} {order : List Service} {c c' : SilConfig F}
    {sender : SockAddr} {m : Msg F} (h : Takes pf order c c' sender m) :
    ∀ f ∈ c'.stack .rx, f.NeverAwaits := by
  intro f hf
  rw [h.eq, Config.put_stack_self] at hf
  rw [List.mem_singleton.1 hf]
  exact fun _ => trivial

/-- Where the receive loop is with a request: it has not recorded the sender yet, or it has, and
    sends one reply in all. -/
inductive Progress (pf : Platform F) (order : List Service) (sender : SockAddr) (m : Msg F)
    (reply : MsgId) (before : List SockAddr) (c : SilConfig F) : Prop
  | locking (hstack : c.stack .rx = [.run none (rxIteration sender (some m))])
      (hsent : sentBy .rx reply c.world = before)
  | recording (hstack : c.stack .rx = [.run none
        (.act (fun _ s => { s with peer := some sender }) fun _ =>
          .unlock .udpBridge (.call (.message m) .done))])
      (hsent : sentBy .rx reply c.world = before)
  | answering {k n : Nat} (hone : k + n = 1)
      (hstands : (account sender reply).Stands (system pf order)
        (List.replicate k sender ++ before) n c)

omit [FloatOps F] in
theorem replyTo_mem {id : MsgId} (hreply : replyTo id = some reply) :
    reply ∈ replies ∧ id ≠ .physicsTick := by
  cases id <;>
    first
    | (obtain rfl := Option.some.inj hreply
       decide)
    | cases hreply

/-- **Step lemma.** -/
theorem progress_step {pf : Platform F} {order : List Service} {sender : SockAddr} {m : Msg F}
    {before : List SockAddr} (hreply : replyTo m.id = some reply) {c c' : SilConfig F}
    {a : Thread × Option (SilFrame F)} (hc : (account sender reply).Spared c)
    (hprogress : Progress pf order sender m reply before c) (ha : a ≠ (.rx, none))
    (hstep : (system pf order).Step c a c') : Progress pf order sender m reply before c' := by
  obtain ⟨hmem, hm⟩ := replyTo_mem hreply
  have hK := account_bookkeeping pf order sender hmem
  obtain ⟨t, f⟩ := a
  cases hprogress with
  | locking hstack hsent =>
      -- Only the receive loop itself can move on, and nothing is sent meanwhile.
      by_cases ht : t = .rx
      · subst ht
        obtain ⟨-, -, rfl⟩ := hstep.eq_fire hstack
        refine .recording ?_ hsent
        rw [System.fire, Config.put_stack_self]
        rfl
      · obtain ⟨-, hview, hsame⟩ := hK.step_other hc ht hstep
        exact .locking (hsame.trans hstack) (hview.trans hsent)
  | recording hstack hsent =>
      by_cases ht : t = .rx
      · subst ht
        obtain ⟨-, -, rfl⟩ := hstep.eq_fire hstack
        -- From here on the sender is the peer, and the whole dispatch of the request is due.
        refine .answering (Nat.zero_add 1) ⟨rfl, hsent, ?_⟩
        show Account.StackDelivers _ _ (((system pf order).fire c .rx _ []).stack .rx) 1
        rw [System.fire, Config.put_stack_self]
        refine ⟨1, 0, rfl, ⟨hm, 0, ?_, rfl⟩, rfl⟩
        rw [due_eq pf order hmem, total, if_pos (.inr hreply)]
      · obtain ⟨-, hview, hsame⟩ := hK.step_other hc ht hstep
        exact .recording (hsame.trans hstack) (hview.trans hsent)
  | @answering k n hone hstands =>
      obtain ⟨k', n', rfl, hstands'⟩ := hK.step hc hstands ha hstep
      have hitem : (account (F := F) sender reply).item = sender := rfl
      rw [hitem, ← List.append_assoc, List.replicate_append_replicate] at hstands'
      exact .answering (by omega) hstands'

/-- No thread ever runs anything that answers for the receive loop. -/
theorem reachable_spared (pf : Platform F) (order : List Service) (sender : SockAddr)
    (hreply : reply ∈ replies) {c : SilConfig F} (hc : Reachable pf order c) :
    (account sender reply).Spared c := by
  have hK := account_bookkeeping pf order sender hreply
  exact hc.invariant (fun _ _ _ hf => absurd hf List.not_mem_nil)
    fun _ _ _ hc _ hstep => hK.spared hc hstep

/-- **Run lemma**: until the receive loop takes its next datagram. -/
theorem progress_run {pf : Platform F} {order : List Service} {c₀ c₁ c₂ : SilConfig F}
    {sender : SockAddr} {m : Msg F} (hreply : replyTo m.id = some reply)
    (hc₀ : Reachable pf order c₀) (htake : Takes pf order c₀ c₁ sender m)
    (hrun : (system pf order).Run (fun _ a => a ≠ (.rx, none)) c₁ c₂) :
    Progress pf order sender m reply (sentBy .rx reply c₀.world) c₂ := by
  have hmem := (replyTo_mem hreply).1
  have hK := account_bookkeeping pf order sender hmem
  have hfirst : Progress pf order sender m reply (sentBy .rx reply c₀.world) c₁ := by
    refine .locking ?_ ?_
    · rw [htake.eq, Config.put_stack_self]
    · rw [htake.eq, Config.put_world]
  have hspared := hK.spared (reachable_spared pf order sender hmem hc₀) htake.step
  refine (hrun.invariant (I := fun c => (account sender reply).Spared c ∧ _) ⟨hspared, hfirst⟩ ?_).2
  exact fun c a c' hc ha hstep =>
    ⟨hK.spared hc.1 hstep, progress_step hreply hc.1 hc.2 ha hstep⟩

/-- Once the receive loop is idle again the sender has its reply. -/
theorem Progress.answered {pf : Platform F} {order : List Service} {c : SilConfig F}
    {sender : SockAddr} {m : Msg F} {before : List SockAddr}
    (hc : Progress pf order sender m reply before c) (hidle : c.stack .rx = []) :
    sentBy .rx reply c.world = sender :: before := by
  cases hc with
  | locking hstack _ => exact nomatch hidle.symm.trans hstack
  | recording hstack _ => exact nomatch hidle.symm.trans hstack
  | answering hone hstands =>
      have hdue := hstands.due
      rw [show (account sender reply).thread = .rx from rfl, hidle] at hdue
      obtain rfl := hdue
      obtain rfl : _ = 1 := hone
      exact hstands.view

/-! ## No handler waits for anything but mutexes -/

theorem onMessage_neverAwaits (pf : Platform F) (h : Service) (m : Msg F) :
    (onMessage pf h m).NeverAwaits := by
  cases h <;> cases m
  case environment.internalEnvRequest req =>
      intro s
      dsimp only
      split
      · simp [Prog.NeverAwaits]
      · split
        · simp [Prog.NeverAwaits, update]
        · trivial
  case autonomous.kinematicsData kin =>
      intro s
      dsimp only
      split
      · trivial
      · simp [Prog.NeverAwaits, update]
  all_goals
    simp [onMessage, Motor.onMotorSequence, Motor.onPhysicsTick, Kinematics.onPhysicsTick,
      Kinematics.onMotorStatus, Kinematics.onKinematicsRequest, Power.onPhysicsTick,
      Power.onMotorStatus, Power.onPowerRequest, Thermal.onPhysicsTick,
      Thermal.onEnvironmentData, Thermal.onThermalRequest, StateService.onStateRequest,
      StateService.onMotorStatus, Environment.onEnvironmentData, Autonomous.onAutoDriveCommand,
      Autonomous.onPowerData, Autonomous.onPhysicsTick, Autonomous.onInternalEnvData, update,
      look, Prog.read, forwardToUdp, Prog.NeverAwaits]

theorem code_neverAwaits (pf : Platform F) (h : Service) (c : Call F) :
    (code pf h c).NeverAwaits := by
  cases c with
  | message m => exact onMessage_neverAwaits pf h m
  | logData p =>
      simp only [code]
      split
      · exact fun _ => trivial
      · trivial
  | log p =>
      simp only [code]
      split
      · exact fun _ => trivial
      · trivial

/-- **Every request is answered once, to its sender.** Whatever the other threads do and whatever
    datagrams came before: from where the receive loop takes an accepted request, it always gets to
    its next datagram in the end, and when it does it has sent one reply with the matching
    identifier, to the client that sent the request. -/
theorem request_answered (pf : Platform F) (order : List Service) {c₀ c₁ : SilConfig F}
    {sender : SockAddr} {m : Msg F} (hreply : replyTo m.id = some reply)
    (hc₀ : Reachable pf order c₀) (htake : Takes pf order c₀ c₁ sender m) :
    ∀ c₂, (system pf order).Run (fun _ a => a ≠ (.rx, none)) c₁ c₂ →
      (c₂.stack .rx = [] → sentBy .rx reply c₂.world = sender :: sentBy .rx reply c₀.world) ∧
      ∃ c₃, (system pf order).Run (fun _ a => a.2 ≠ none) c₂ c₃ ∧ c₃.stack .rx = [] := by
  intro c₂ hrun
  refine ⟨(progress_run hreply hc₀ htake hrun).answered, ?_⟩
  have hdisciplined := system_disciplined pf order
  have horderly : (system pf order).Orderly mutexRank allows c₂ :=
    hdisciplined.run (hdisciplined.step (hdisciplined.run (orderly_idle _ _ _ _) hc₀) htake.step)
      hrun
  have hnever : ∀ f ∈ c₂.stack .rx, f.NeverAwaits := by
    refine hrun.invariant (I := fun c => ∀ f ∈ c.stack .rx, f.NeverAwaits) htake.neverAwaits ?_
    exact fun _ _ _ hc ha hstep => hstep.neverAwaits (code_neverAwaits pf) ha hc
  exact hdisciplined.finishes (system_descends pf order) mutexRank_lt (code_neverAwaits pf) .rx c₂
    horderly hnever

/-- The first datagram the process receives. -/
theorem kinematicsRequest_answered : ∃ c : SilConfig ℚ,
    Reachable (.libstdcxx fun _ _ => 0) Service.all c ∧ c.stack .rx = [] ∧
      sentBy .rx .kinematicsData c.world = [⟨2130706433, 40000⟩] := by
  let pf : Platform ℚ := .libstdcxx fun _ _ => 0
  have htake : Takes pf Service.all (idle State.init) _ ⟨2130706433, 40000⟩ .kinematicsRequest :=
    ⟨rfl, rfl, rfl⟩
  have hreply : replyTo (Msg.kinematicsRequest : Msg ℚ).id = some .kinematicsData := rfl
  have hanswered := request_answered pf Service.all hreply Relation.ReflTransGen.refl htake
  obtain ⟨-, c, hrun, hidle⟩ := hanswered _ Relation.ReflTransGen.refl
  refine ⟨c, ?_, hidle, (hanswered c ?_).1 hidle⟩
  · exact .head ⟨_, trivial, htake.step⟩ (hrun.mono fun _ _ _ => trivial)
  · refine hrun.mono fun _ a ha => ?_
    rintro rfl
    exact ha rfl

end Sil

end ReflectPytest
