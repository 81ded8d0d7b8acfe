import ReflectPytest.Sil.Handlers

set_option autoImplicit false

/-! # The threads of the process

`sil_app` after startup: the clock, the bridge's receive loop, the log worker and the heartbeat run
one iteration after another, and the main thread waits for the end and then destroys the services
one by one. Each iteration is code of its thread; what it calls runs in the same thread. -/

namespace ReflectPytest

open LockedBus

namespace Sil

variable {F : Type} [FloatOps F]

/-! ## Loops -/

/-- A thread function returns. -/
def exit : Code F := .act (fun t s => { s with exited := t :: s.exited }) fun _ => .done

/-- One iteration of `clock_loop`. `wait_for` evaluates its condition under the mutex and releases
    it while it waits. -/
def clockIteration (pf : Platform F) : Code F :=
  look fun start =>
  .lock .state <|
  update (fun w => (App.takeSnapshot pf w).1) fun w =>
  .unlock .state <|
  .call (.message (.physicsTick (App.takeSnapshot pf w).2)) <|
  look fun stop =>
  if (stop.now - start.now) / 1000 < pf.kTickUs then
    .lock .state <| .unlock .state <| .lock .state <| .unlock .state .done
  else .done

/-- One iteration of `rx_loop` that receives a datagram: its sender, and the message
    `publish_if_authorized` admits, if it admits one. -/
def rxIteration (sender : SockAddr) (admitted : Option (Msg F)) : Code F :=
  .lock .udpBridge <|
  .act (fun _ s => { s with peer := some sender }) fun _ =>
  .unlock .udpBridge <|
  .calls (admitted.toList.map Call.message) .done

/-- One iteration of `worker_loop`, or as much of it as runs before a wait. A wait may end at any
    time, and then the mutex is taken again. -/
def workerIteration : Code F :=
  .lock .log <| .read fun s =>
  if s.log.wakes then
    if s.log.exits then .unlock .log exit
    else
      .act (fun _ s => { s with log := s.log.swap }) fun s =>
      .unlock .log <|
      .calls (s.log.queue.map Call.logData) .done
  else .unlock .log .done

/-- One iteration of the heartbeat after its wait. -/
def heartbeatIteration : Code F := .call (.log ⟨.info, "main", "[heartbeat] TICK %u"⟩) .done

/-! ## Destruction -/

/-- The destructor of a service: three of them stop their thread and join it. -/
def destructor (next : Code F) : Service → Code F
  | .state =>
      .act (fun _ s => { s with clockRunning := false }) fun _ =>
      .await (fun s => s.exited.contains .clock) next
  | .log =>
      .lock .log <| .act (fun _ s => { s with log := s.log.stop }) fun _ => .unlock .log <|
      .await (fun s => s.exited.contains .worker) next
  | .udpBridge =>
      .act (fun _ s => { s with wake := true }) fun _ =>
      .await (fun s => s.exited.contains .rx) next
  | _ => next

/-- The end of the lifetime of a service. Its members go with it; what they hold then is left
    open. -/
def finish (h : Service) : Thread → State F → State F :=
  fun _ s => { s with destroyed := h :: s.destroyed }

/-- Destroy the elements of the tuple one after another. -/
def destroyAll : List Service → Code F
  | [] => .done
  | h :: rest => destructor (.act (finish h) fun _ => destroyAll rest) h

/-! ## Starting -/

/-- What an idle thread does next. -/
inductive Activity (F : Type) where
  | clock
  | rx (sender : SockAddr) (admitted : Option (Msg F))
  | worker
  | heartbeat
  /-- `main` returns. -/
  | main
  /-- `shutdown`, on a signal. -/
  | signal
  | wait (now : Nat)
  deriving DecidableEq

/-- The thread of an activity. -/
def Activity.thread : Activity F → Thread
  | .clock => .clock
  | .rx _ _ => .rx
  | .worker => .worker
  | .heartbeat => .heartbeat
  | .main => .main
  | .signal | .wait _ => .outside

/-- The activity, where it is possible: the state it starts in and its code. -/
def begins (pf : Platform F) (order : List Service) (s : State F) :
    Activity F → Option (State F × Code F)
  | .clock =>
      if s.exited.contains .clock then none
      else some (s, if s.clockRunning then clockIteration pf else exit)
  | .rx sender admitted =>
      if s.exited.contains .rx || !admitted.all App.authorized then none
      else some (s, if s.wake then exit else rxIteration sender admitted)
  | .worker => if s.exited.contains .worker then none else some (s, workerIteration)
  | .heartbeat =>
      if s.exited.contains .heartbeat then none
      else some (s, if s.running then heartbeatIteration else exit)
  | .main =>
      if s.running || !s.exited.contains .heartbeat || s.shutDown then none
      else some ({ s with shutDown := true }, destroyAll order)
  | .signal => some ({ s with running := false }, .done)
  | .wait now =>
      if now < s.app.now then none
      else some ({ s with app := { s.app with now := now } }, .done)

/-- What `begins` can start, case by case. -/
inductive Begun (pf : Platform F) (order : List Service) (s : State F) :
    Activity F → State F → Code F → Prop
  | clock : Begun pf order s .clock s (clockIteration pf)
  | rx {sender : SockAddr} {admitted : Option (Msg F)}
      (hauth : ∀ m ∈ admitted, App.authorized m = true) :
      Begun pf order s (.rx sender admitted) s (rxIteration sender admitted)
  | worker : Begun pf order s .worker s workerIteration
  | heartbeat : Begun pf order s .heartbeat s heartbeatIteration
  | exit {a : Activity F} : Begun pf order s a s exit
  | main : Begun pf order s .main { s with shutDown := true } (destroyAll order)
  | signal : Begun pf order s .signal { s with running := false } .done
  | wait {now : Nat} (hnow : s.app.now ≤ now) :
      Begun pf order s (.wait now) { s with app := { s.app with now := now } } .done

omit [FloatOps F] in
theorem begun_of_begins {pf : Platform F} {order : List Service} {s s' : State F} {a : Activity F}
    {p : Code F} (h : begins pf order s a = some (s', p)) : Begun pf order s a s' p := by
  cases a with
  | clock =>
      obtain ⟨-, heq⟩ := Option.ite_none_left_eq_some.1 h
      obtain ⟨rfl, rfl⟩ := Prod.mk.inj (Option.some.inj heq)
      split
      · exact .clock
      · exact .exit
  | rx sender admitted =>
      obtain ⟨hok, heq⟩ := Option.ite_none_left_eq_some.1 h
      obtain ⟨rfl, rfl⟩ := Prod.mk.inj (Option.some.inj heq)
      split
      · exact .exit
      · refine .rx fun m hm => ?_
        obtain rfl : admitted = some m := hm
        simp_all
  | worker =>
      obtain ⟨-, heq⟩ := Option.ite_none_left_eq_some.1 h
      obtain ⟨rfl, rfl⟩ := Prod.mk.inj (Option.some.inj heq)
      exact .worker
  | heartbeat =>
      obtain ⟨-, heq⟩ := Option.ite_none_left_eq_some.1 h
      obtain ⟨rfl, rfl⟩ := Prod.mk.inj (Option.some.inj heq)
      split
      · exact .heartbeat
      · exact .exit
  | main =>
      obtain ⟨-, heq⟩ := Option.ite_none_left_eq_some.1 h
      obtain ⟨rfl, rfl⟩ := Prod.mk.inj (Option.some.inj heq)
      exact .main
  | signal =>
      obtain ⟨rfl, rfl⟩ := Prod.mk.inj (Option.some.inj h)
      exact .signal
  | wait now =>
      obtain ⟨hnow, heq⟩ := Option.ite_none_left_eq_some.1 h
      obtain ⟨rfl, rfl⟩ := Prod.mk.inj (Option.some.inj heq)
      exact .wait (not_lt.1 hnow)

omit [FloatOps F] in
/-- Starting changes neither the bridge nor the services. -/
theorem begins_local {pf : Platform F} {order : List Service} {s s' : State F} {a : Activity F}
    {p : Code F} (h : begins pf order s a = some (s', p)) :
    s'.peer = s.peer ∧ s'.sent = s.sent ∧ s'.destroyed = s.destroyed := by
  cases begun_of_begins h <;> exact ⟨rfl, rfl, rfl⟩

omit [FloatOps F] in
/-- What a thread starts does nothing but local actions, except that the receive loop records the
    peer and `main` destroys the services. -/
theorem begins_acts {P : (Thread → State F → State F) → Prop} {pf : Platform F}
    {order : List Service} {s s' : State F} {a : Activity F} {p : Code F}
    (h : begins pf order s a = some (s', p)) (hlocal : ∀ {action}, Local action → P action)
    (hpeer : a.thread = .rx → ∀ sender, P fun _ s => { s with peer := some sender })
    (hmain : (destroyAll order).Acts P) : p.Acts P := by
  cases begun_of_begins h with
  | clock =>
      refine ⟨hlocal fun _ _ => ⟨rfl, rfl, rfl⟩, fun _ => ⟨hlocal fun _ _ => ⟨rfl, rfl, rfl⟩, ?_⟩⟩
      refine fun _ => ⟨hlocal fun _ _ => ⟨rfl, rfl, rfl⟩, fun stop => ?_⟩
      dsimp only
      split <;> trivial
  | rx hauth => exact ⟨hpeer rfl _, fun _ => Prog.acts_calls.2 trivial⟩
  | worker =>
      refine ⟨hlocal fun _ _ => ⟨rfl, rfl, rfl⟩, fun s => ?_⟩
      dsimp only
      split
      · split
        · exact ⟨hlocal fun _ _ => ⟨rfl, rfl, rfl⟩, fun _ => trivial⟩
        · exact ⟨hlocal fun _ _ => ⟨rfl, rfl, rfl⟩, fun _ => Prog.acts_calls.2 trivial⟩
      · trivial
  | exit => exact ⟨hlocal fun _ _ => ⟨rfl, rfl, rfl⟩, fun _ => trivial⟩
  | main => exact hmain
  | heartbeat | signal | wait _ => trivial

/-! ## The system -/

/-- The process: the services on their bus, destroyed in the given order. -/
def system (pf : Platform F) (order : List Service) :
    System Thread Service (State F) (Call F) Service where
  receivers := receivers pf
  code := code pf
  record
    | .message m, s => { s with app := (App.bus pf).record m s.app }
    | _, s => s
  recursive := recursive
  start t s s' p := ∃ a, Activity.thread a = t ∧ begins pf order s a = some (s', p)

abbrev SilFrame (F : Type) : Type := Frame Thread Service (State F) (Call F) Service

abbrev SilConfig (F : Type) : Type := Config Thread Service (State F) (Call F) Service

/-- Every configuration the process can reach after startup. -/
def Reachable (pf : Platform F) (order : List Service) (c : SilConfig F) : Prop :=
  (system pf order).Run (fun _ _ => True) (System.idle .init) c

/-! ## Schedules -/

/-- One scheduling decision. -/
inductive Move (F : Type) where
  | start (a : Activity F)
  | advance (t : Thread) (n : Nat)

variable (pf : Platform F) (order : List Service)

/-- Carry out a decision, if it is possible. -/
def move (c : SilConfig F) : Move F → Option (SilConfig F)
  | .start a =>
      match c.stack a.thread, begins pf order c.world a with
      | [], some (s, p) => some (c.put a.thread s [.run none p] (c.held a.thread))
      | _, _ => none
  | .advance t n => (system pf order).advances t n c

/-- Carry out a schedule. -/
def play (c : SilConfig F) : List (Move F) → Option (SilConfig F)
  | [] => some c
  | mv :: rest => (move pf order c mv).bind fun c' => play c' rest

variable {pf order}

/-- A thread that starts takes a step. -/
theorem step_of_start {c c' : SilConfig F} {a : Activity F}
    (h : move pf order c (.start a) = some c') :
    (system pf order).Step c (a.thread, none) c' := by
  simp only [move] at h
  split at h
  · next hidle hbegins =>
      obtain rfl := Option.some.inj h
      have hstart : (system pf order).start a.thread c.world _ _ := ⟨a, rfl, hbegins⟩
      exact .start hidle hstart
  · exact nomatch h

/-- What a schedule reaches is reached by a run. -/
theorem play_run {c c' : SilConfig F} {mvs : List (Move F)} (h : play pf order c mvs = some c') :
    (system pf order).Run (fun _ _ => True) c c' := by
  induction mvs generalizing c with
  | nil =>
      obtain rfl := Option.some.inj h
      exact Relation.ReflTransGen.refl
  | cons mv rest ih =>
      obtain ⟨c₁, hmove, hrest⟩ := Option.bind_eq_some_iff.1 h
      refine Relation.ReflTransGen.trans ?_ (ih hrest)
      cases mv with
      | start a => exact .single ⟨_, trivial, step_of_start hmove⟩
      | advance t n => exact System.advances_run hmove

end Sil

end ReflectPytest
