import ReflectPytest.Concurrency.AppThreads
import ReflectPytest.Library.Mailbox

set_option autoImplicit false

/-! # The fixtures of the test suite

`dispatch_sequence` and the `_wait_for_…` loops it is made of, run by an `UdpClient` against the
application. Datagrams wait in a socket at either end; they keep their order, and any of them may be
lost. What the clock says about a timeout or a deadline is left open, so either may pass at any
time. A `Log` datagram only ever passes through the client's queue and is left out. -/

namespace ReflectPytest

open SyncBus Mailbox

/-- `MAX_STEPS`. -/
def maxSteps : Nat := 5

/-- A `_wait_for_…` loop: in each round it may drain, then sends its request and receives a message
    of the expected type, until one is accepted. -/
structure Wait (F : Type) where
  drains : Bool
  request : Msg F
  expectedId : MsgId
  accepts : Msg F → Bool

/-- What a test calls on its `UdpClient`. -/
inductive Statement (F : Type) where
  | send (m : Msg F)
  | wait (w : Wait F)

namespace Fixtures

variable {F : Type}

/-! ## fixtures_ipc.py -/

/-- `_wait_for_acceptance`. -/
def waitForAcceptance (cmdId : Nat) : Wait F where
  drains := false
  request := .kinematicsRequest
  expectedId := .kinematicsData
  accepts
    | .kinematicsData k => decide (k.cmdId = cmdId)
    | _ => false

/-- `_wait_for_started`. -/
def waitForStarted (cmdId : Nat) : Wait F where
  drains := false
  request := .kinematicsRequest
  expectedId := .kinematicsData
  accepts
    | .kinematicsData k => decide (k.cmdId = cmdId) && decide (0 < k.elapsedUs)
    | _ => false

/-- The reply says that the system is in the state. -/
def reports (targetState : SystemState) : Msg F → Bool
  | .stateData s => decide (s.state = targetState)
  | _ => false

/-- `_wait_for_completion`. -/
def waitForCompletion : Wait F where
  drains := true
  request := .stateRequest
  expectedId := .stateData
  accepts := reports .ready

/-- `MotorSequencePayload(cmd_id, len(steps), padded_steps)`. -/
def sequencePayload (cmdId : Nat) (steps : List MotorSubCmd) : MotorSequencePayload :=
  ⟨cmdId, steps.length, fun i => steps.getD i ⟨0, 0⟩⟩

/-- `dispatch_sequence`. With more than `MAX_STEPS` steps there is no padding and the datagram is
    too long for the bridge, as good as none. -/
def dispatchSequence (cmdId : Nat) (steps : List MotorSubCmd)
    (waitAccepted waitStarted waitComplete : Bool) : List (Statement F) :=
  (if steps.length ≤ maxSteps then [.send (.motorSequence (sequencePayload cmdId steps))]
    else []) ++
  (if waitAccepted || waitStarted || waitComplete then [.wait (waitForAcceptance cmdId)] else []) ++
  (if waitStarted || waitComplete then [.wait (waitForStarted cmdId)] else []) ++
  (if waitComplete then [.wait waitForCompletion] else [])

/-! ## A session -/

/-- Where the test is: before a statement, in `recv_msg` of a loop, or over with a
    `TimeoutError`. -/
inductive Control (F : Type) where
  | running (script : List (Statement F))
  | receiving (w : Wait F) (rest : List (Statement F))
  | failed

/-- The application, the datagrams in the two sockets, oldest first, and the client: its `_queue`
    and its test. -/
structure Session (F : Type) where
  app : AppConfig F
  toBridge : List (Msg F)
  toClient : List (Msg F)
  queue : List (Msg F)
  control : Control F

/-- Leave the loop with a reply, or go around once more. -/
def Control.after (w : Wait F) (rest : List (Statement F)) (m : Msg F) : Control F :=
  if w.accepts m then .running rest else .running (.wait w :: rest)

/-- What the client can do. -/
inductive ClientStep : Session F → Session F → Prop
  | send {s : Session F} {m : Msg F} {rest : List (Statement F)}
      (h : s.control = .running (.send m :: rest)) :
      ClientStep s { s with toBridge := s.toBridge ++ [m], control := .running rest }
  /-- A round begins. `drain` empties the queue and discards what has arrived. -/
  | ask {s : Session F} {w : Wait F} {rest : List (Statement F)} {discarded left : List (Msg F)}
      (h : s.control = .running (.wait w :: rest)) (hleft : s.toClient = discarded ++ left)
      (hdrain : w.drains = false → discarded = []) :
      ClientStep s { s with
        toBridge := s.toBridge ++ [w.request]
        toClient := left
        queue := if w.drains then [] else s.queue
        control := .receiving w rest }
  /-- The deadline of a loop. -/
  | expire {s : Session F} {w : Wait F} {rest : List (Statement F)}
      (h : s.control = .running (.wait w :: rest)) : ClientStep s { s with control := .failed }
  /-- `recv_msg` checks the queue first. -/
  | pop {s : Session F} {w : Wait F} {rest : List (Statement F)} {m : Msg F} {queue : List (Msg F)}
      (h : s.control = .receiving w rest)
      (htake : takeFirst (wants Msg.id (some w.expectedId)) s.queue = some (m, queue)) :
      ClientStep s { s with queue := queue, control := .after w rest m }
  | receive {s : Session F} {w : Wait F} {rest : List (Statement F)} {m : Msg F}
      {left : List (Msg F)} (h : s.control = .receiving w rest)
      (hnone : takeFirst (wants Msg.id (some w.expectedId)) s.queue = none)
      (hnext : s.toClient = m :: left) (hid : m.id = w.expectedId) :
      ClientStep s { s with toClient := left, control := .after w rest m }
  /-- Not what it wanted: queue it and keep looking. -/
  | keep {s : Session F} {w : Wait F} {rest : List (Statement F)} {m : Msg F} {left : List (Msg F)}
      (h : s.control = .receiving w rest)
      (hnone : takeFirst (wants Msg.id (some w.expectedId)) s.queue = none)
      (hnext : s.toClient = m :: left) (hid : m.id ≠ w.expectedId) :
      ClientStep s { s with toClient := left, queue := s.queue ++ [m] }
  /-- The `TimeoutError` of `recv_msg`, which the loop catches. -/
  | timeout {s : Session F} {w : Wait F} {rest : List (Statement F)}
      (h : s.control = .receiving w rest)
      (hnone : takeFirst (wants Msg.id (some w.expectedId)) s.queue = none) :
      ClientStep s { s with control := .running (.wait w :: rest) }

variable [FloatOps F]

/-- What `forward_to_udp` sends when the frame fires. -/
def sent : Option (AppFrame F) → List (Msg F)
  | some (.call .udpBridge m) => [m]
  | _ => []

/-- The receive loop takes a datagram: it publishes what is authorized. -/
def accept (c : AppConfig F) (m : Msg F) : AppConfig F :=
  if App.authorized m then c.put .bridge c.world [.publish m] else c

/-- One step of a session, labelled with what the application does. -/
inductive Step (pf : Platform F) :
    Session F → Option (Thread × Option (AppFrame F)) → Session F → Prop
  /-- The application, except for the start of a datagram. -/
  | app {s : Session F} {a : Thread × Option (AppFrame F)} {app : AppConfig F}
      (hstep : (App.machine pf).Step s.app a app) (hnot : a ≠ (.bridge, none)) :
      Step pf s (some a) { s with app := app, toClient := s.toClient ++ sent a.2 }
  | deliver {s : Session F} {m : Msg F} {rest : List (Msg F)} (hnext : s.toBridge = m :: rest)
      (hidle : s.app.stack .bridge = []) :
      Step pf s none { s with app := accept s.app m, toBridge := rest }
  /-- Another process sends to the port. Replies that then go to it are lost here. -/
  | intrude {s : Session F} (m : Msg F) : Step pf s none { s with toBridge := s.toBridge ++ [m] }
  | lose {s : Session F} {toBridge toClient : List (Msg F)} (hbridge : toBridge.Sublist s.toBridge)
      (hclient : toClient.Sublist s.toClient) :
      Step pf s none { s with toBridge := toBridge, toClient := toClient }
  | client {s s' : Session F} (hstep : ClientStep s s') : Step pf s none s'

/-- Sessions all of whose steps meet a condition. -/
def Run (pf : Platform F) (P : Session F → Option (Thread × Option (AppFrame F)) → Prop) :
    Session F → Session F → Prop :=
  Relation.ReflTransGen fun s s' => ∃ a, P s a ∧ Step pf s a s'

/-- A test begins. -/
def start (script : List (Statement F)) : Session F := ⟨App.start, [], [], [], .running script⟩

/-- Every situation a test can get into. -/
def Reachable (pf : Platform F) (s : Session F) : Prop :=
  ∃ script, Run pf (fun _ _ => True) (start script) s

/-! ## The application in a session -/

/-- The application takes a step of its own, or none. -/
theorem Step.project {pf : Platform F} {s s' : Session F}
    {a : Option (Thread × Option (AppFrame F))} (h : Step pf s a s') :
    s'.app = s.app ∨ ∃ b, (a = none → b = (.bridge, none)) ∧ (∀ b', a = some b' → b' = b) ∧
      (App.machine pf).Step s.app b s'.app := by
  cases h with
  | @app b _ hstep _ =>
      exact .inr ⟨b, (fun h => nomatch h), fun _ h => (Option.some.inj h).symm, hstep⟩
  | @deliver m _ hnext hidle =>
      show accept s.app m = s.app ∨ _
      by_cases hauth : App.authorized m = true
      · refine .inr ⟨(.bridge, none), fun _ => rfl, (fun _ h => nomatch h), ?_⟩
        show (App.machine pf).Step s.app _ (accept s.app m)
        rw [accept, if_pos hauth]
        exact Machine.Step.start (S := App.machine pf) hidle (App.Start.datagram hauth)
      · exact .inl (if_neg hauth)
  | intrude m => exact .inl rfl
  | lose hbridge hclient => exact .inl rfl
  | client hstep => cases hstep <;> exact .inl rfl

/-- What the application does in a session it does in a run of its threads. -/
theorem Run.project {pf : Platform F}
    {P : Session F → Option (Thread × Option (AppFrame F)) → Prop} {s s' : Session F}
    (h : Run pf P s s') (hreach : App.Reachable pf s.app) : App.Reachable pf s'.app := by
  induction h with
  | refl => exact hreach
  | tail _ hlast ih =>
      obtain ⟨a, -, hstep⟩ := hlast
      rcases hstep.project with heq | ⟨b, -, -, happ⟩
      · exact heq ▸ ih
      · exact ih.tail ⟨b, trivial, happ⟩

theorem Reachable.app {pf : Platform F} {s : Session F} (h : Reachable pf s) :
    App.Reachable pf s.app := by
  obtain ⟨script, hrun⟩ := h
  exact hrun.project Relation.ReflTransGen.refl

/-! ## Schedules -/

/-- One scheduling decision. The client goes on as far as it can without a timeout; its rounds
    discard all there is if they drain. -/
inductive Move where
  | advance (t : Thread)
  | snapshot
  | tick
  | deliver
  | client

/-- The client's own next step. -/
def clientMove (s : Session F) : Option (Session F) :=
  match s.control with
  | .failed | .running [] => none
  | .running (.send m :: rest) =>
      some { s with toBridge := s.toBridge ++ [m], control := .running rest }
  | .running (.wait w :: rest) => some { s with
      toBridge := s.toBridge ++ [w.request]
      toClient := if w.drains then [] else s.toClient
      queue := if w.drains then [] else s.queue
      control := .receiving w rest }
  | .receiving w rest =>
      match takeFirst (wants Msg.id (some w.expectedId)) s.queue, s.toClient with
      | some (m, queue), _ => some { s with queue := queue, control := .after w rest m }
      | none, [] => none
      | none, m :: left =>
          if m.id = w.expectedId then some { s with toClient := left, control := .after w rest m }
          else some { s with toClient := left, queue := s.queue ++ [m] }

omit [FloatOps F] in
theorem clientMove_step {s s' : Session F} (h : clientMove s = some s') : ClientStep s s' := by
  unfold clientMove at h
  split at h
  · exact nomatch h
  · exact nomatch h
  · next hcontrol =>
      obtain rfl := Option.some.inj h
      exact .send hcontrol
  · next w rest hcontrol =>
      obtain rfl := Option.some.inj h
      cases hdrains : w.drains with
      | true =>
          have hleft : s.toClient = s.toClient ++ [] := (List.append_nil _).symm
          have hstep := ClientStep.ask hcontrol hleft (by simp [hdrains])
          simpa only [hdrains, if_true] using hstep
      | false =>
          have hleft : s.toClient = [] ++ s.toClient := rfl
          have hstep := ClientStep.ask hcontrol hleft fun _ => rfl
          simpa only [hdrains, Bool.false_eq_true, if_false] using hstep
  · next w rest hcontrol =>
      split at h
      · next htake =>
          obtain rfl := Option.some.inj h
          exact .pop hcontrol htake
      · exact nomatch h
      · next hnone hnext =>
          split at h
          · next hid =>
              obtain rfl := Option.some.inj h
              exact .receive hcontrol hnone hnext hid
          · next hid =>
              obtain rfl := Option.some.inj h
              exact .keep hcontrol hnone hnext hid

section Play

variable (pf : Platform F) (P : Session F → Option (Thread × Option (AppFrame F)) → Prop)
  [∀ s a, Decidable (P s a)]

/-- Carry out a decision, if it is possible and meets the condition. -/
def move (s : Session F) : Move → Option (Session F)
  | .advance t =>
      match s.app.stack t with
      | [] => none
      | f :: rest =>
          if P s (some (t, some f)) then
            ((App.machine pf).fire t f rest s.app).map fun app =>
              { s with app := app, toClient := s.toClient ++ sent (some f) }
          else none
  | .snapshot =>
      (App.move pf (fun _ a => P s (some a)) s.app .snapshot).map fun app =>
        { s with app := app, toClient := s.toClient ++ [] }
  | .tick =>
      (App.move pf (fun _ a => P s (some a)) s.app .tick).map fun app =>
        { s with app := app, toClient := s.toClient ++ [] }
  | .deliver =>
      match s.toBridge, s.app.stack .bridge with
      | m :: rest, [] =>
          if P s none then some { s with app := accept s.app m, toBridge := rest } else none
      | _, _ => none
  | .client => if P s none then clientMove s else none

/-- Carry out a schedule. -/
def play (s : Session F) : List Move → Option (Session F)
  | [] => some s
  | mv :: rest => (move pf P s mv).bind fun s' => play s' rest

variable {pf P}

theorem move_step {s s' : Session F} {mv : Move} (h : move pf P s mv = some s') :
    ∃ a, P s a ∧ Step pf s a s' := by
  cases mv with
  | advance t =>
      simp only [move] at h
      split at h
      · exact nomatch h
      · next hstack =>
          obtain ⟨hP, hmap⟩ := Option.ite_none_right_eq_some.1 h
          obtain ⟨app, hfire, rfl⟩ := Option.map_eq_some_iff.1 hmap
          exact ⟨_, hP, .app (.fire hstack hfire) (by simp)⟩
  | snapshot =>
      obtain ⟨app, hmove, rfl⟩ := Option.map_eq_some_iff.1 h
      have hstarts : ∀ t, (.snapshot : App.Move F) ≠ .advance t := fun _ h => nomatch h
      obtain ⟨hP, hstep⟩ := App.move_thread hstarts hmove
      exact ⟨_, hP, .app hstep (by simp [App.Move.thread])⟩
  | tick =>
      obtain ⟨app, hmove, rfl⟩ := Option.map_eq_some_iff.1 h
      have hstarts : ∀ t, (.tick : App.Move F) ≠ .advance t := fun _ h => nomatch h
      obtain ⟨hP, hstep⟩ := App.move_thread hstarts hmove
      exact ⟨_, hP, .app hstep (by simp [App.Move.thread])⟩
  | deliver =>
      simp only [move] at h
      split at h
      · next hnext hidle =>
          obtain ⟨hP, hsome⟩ := Option.ite_none_right_eq_some.1 h
          obtain rfl := Option.some.inj hsome
          exact ⟨_, hP, .deliver hnext hidle⟩
      · exact nomatch h
  | client =>
      obtain ⟨hP, hmove⟩ := Option.ite_none_right_eq_some.1 h
      exact ⟨_, hP, .client (clientMove_step hmove)⟩

/-- What a schedule reaches is reached by a run. -/
theorem play_run {s s' : Session F} {mvs : List Move} (h : play pf P s mvs = some s') :
    Run pf P s s' := by
  induction mvs generalizing s with
  | nil =>
      obtain rfl := Option.some.inj h
      exact Relation.ReflTransGen.refl
  | cons mv rest ih =>
      obtain ⟨s₁, hmove, hrest⟩ := Option.bind_eq_some_iff.1 h
      exact .head (move_step hmove) (ih hrest)

end Play

end Fixtures

end ReflectPytest
