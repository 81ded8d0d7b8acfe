import ReflectPytest.App
import ReflectPytest.Library.Threads

set_option autoImplicit false

/-! # The threads of the application

`clock_loop` takes its snapshot under `mu_` of `StateService` and publishes the tick later;
`rx_loop` publishes what the bridge accepts. Both run handlers of the same services, which exclude
each other by the services' mutexes. Only three services hold theirs across a publish; for the
others a handler is one atomic section. -/

namespace ReflectPytest

open SyncBus

/-- The two publishing threads, and the passage of time. -/
inductive Thread where
  | clock | bridge | time
  deriving DecidableEq, Repr

instance : Fintype Thread := ⟨{.clock, .bridge, .time}, fun t => by cases t <;> decide⟩

/-- The mutexes held across publishes. -/
inductive Mutex where
  | motor | environment | autonomous
  deriving DecidableEq, Repr

/-- The mutex a handler of the service holds from its call to its return. -/
def Service.mutex : Service → Option Mutex
  | motor => some .motor
  | environment => some .environment
  | autonomous => some .autonomous
  | _ => none

/-- `std::recursive_mutex`, as opposed to `std::mutex`. -/
def Mutex.recursive : Mutex → Bool
  | motor => false
  | environment => true
  | autonomous => true

variable {F : Type} [FloatOps F]

abbrev AppFrame (F : Type) : Type := Frame Service (World F) (Msg F) Mutex

abbrev AppConfig (F : Type) : Type := Config Thread Service (World F) (Msg F) Mutex

namespace App

/-- What an idle thread may start. The clock alternates between a snapshot and the publish of the
    tick it took; the bridge publishes an accepted datagram; time goes on. -/
inductive Start (pf : Platform F) : Thread → World F → World F → List (Msg F) → Prop
  | snapshot {w : World F} (h : w.clockTick = none) :
      Start pf .clock w { (takeSnapshot pf w).1 with clockTick := some (takeSnapshot pf w).2 } []
  | tick {w : World F} {tick : PhysicsTickPayload} (h : w.clockTick = some tick) :
      Start pf .clock w { w with clockTick := none } [.physicsTick tick]
  | datagram {w : World F} {m : Msg F} (h : authorized m = true) : Start pf .bridge w w [m]
  | wait {w : World F} {now : Nat} (h : w.now ≤ now) : Start pf .time w { w with now := now } []

/-- The application as threads on its bus. -/
def machine (pf : Platform F) : Machine Thread Service (World F) (Msg F) Mutex where
  toBus := bus pf
  lock h _ := h.mutex
  recursive := Mutex.recursive
  start := Start pf

/-- All services constructed, nothing running. -/
def start : AppConfig F := ⟨.init, fun _ => []⟩

/-- Every configuration the threads can reach. -/
def Reachable (pf : Platform F) (c : AppConfig F) : Prop :=
  (machine pf).Run (fun _ _ => True) start c

/-- The status a frame still has to give to the service. -/
def statusFor (h : Service) : AppFrame F → Option MotorStatusPayload
  | .publish (.motorStatus ms) => some ms
  | .call h' (.motorStatus ms) => if h' = h then some ms else none
  | _ => none

/-- Some thread still has to give the status to the service. -/
def OnItsWay (c : AppConfig F) (h : Service) (ms : MotorStatusPayload) : Prop :=
  ∃ t, ms ∈ (c.stack t).filterMap (statusFor h)

instance (c : AppConfig F) (h : Service) (ms : MotorStatusPayload) : Decidable (OnItsWay c h ms) :=
  inferInstanceAs (Decidable (∃ t, ms ∈ (c.stack t).filterMap (statusFor h)))

/-! ## Schedules

An executable scheduler, for looking at single runs. -/

/-- One scheduling decision. -/
inductive Move (F : Type) where
  | advance (t : Thread)
  | snapshot
  | tick
  | datagram (m : Msg F)

/-- The thread a decision is about. -/
def Move.thread : Move F → Thread
  | .advance t => t
  | .snapshot | .tick => .clock
  | .datagram _ => .bridge

section Play

variable (pf : Platform F) (P : AppConfig F → Thread × Option (AppFrame F) → Prop)
  [∀ c a, Decidable (P c a)]

/-- Carry out a decision, if it is possible and meets the condition. Advancing an idle thread does
    nothing. -/
def move (c : AppConfig F) : Move F → Option (AppConfig F)
  | .advance t =>
      match c.stack t with
      | [] => some c
      | f :: rest => if P c (t, some f) then (machine pf).fire t f rest c else none
  | .snapshot =>
      match c.stack .clock, c.world.clockTick with
      | [], none =>
          if P c (.clock, none) then
            some (c.put .clock { (takeSnapshot pf c.world).1 with
              clockTick := some (takeSnapshot pf c.world).2 } [])
          else none
      | _, _ => none
  | .tick =>
      match c.stack .clock, c.world.clockTick with
      | [], some tick =>
          if P c (.clock, none) then
            some (c.put .clock { c.world with clockTick := none } [.publish (.physicsTick tick)])
          else none
      | _, _ => none
  | .datagram m =>
      match c.stack .bridge with
      | [] =>
          if authorized m = true ∧ P c (.bridge, none) then
            some (c.put .bridge c.world [.publish m])
          else none
      | _ => none

/-- Carry out a schedule. -/
def play (c : AppConfig F) : List (Move F) → Option (AppConfig F)
  | [] => some c
  | mv :: rest => (move pf P c mv).bind fun c' => play c' rest

variable {pf P}

/-- A decision other than to advance starts something on its thread. -/
theorem move_thread {c c' : AppConfig F} {mv : Move F} (hmv : ∀ t, mv ≠ .advance t)
    (h : move pf P c mv = some c') :
    P c (mv.thread, none) ∧ (machine pf).Step c (mv.thread, none) c' := by
  cases mv with
  | advance t => exact absurd rfl (hmv t)
  | snapshot =>
      simp only [move] at h
      split at h
      · next hidle htick =>
          obtain ⟨hP, heq⟩ := Option.ite_none_right_eq_some.1 h
          obtain rfl := Option.some.inj heq
          exact ⟨hP, Machine.Step.start (S := machine pf) hidle (Start.snapshot htick)⟩
      · exact absurd h (by simp)
  | tick =>
      simp only [move] at h
      split at h
      · next hidle htick =>
          obtain ⟨hP, heq⟩ := Option.ite_none_right_eq_some.1 h
          obtain rfl := Option.some.inj heq
          exact ⟨hP, Machine.Step.start (S := machine pf) hidle (Start.tick htick)⟩
      · exact absurd h (by simp)
  | datagram m =>
      simp only [move] at h
      split at h
      · next hidle =>
          obtain ⟨⟨hauth, hP⟩, heq⟩ := Option.ite_none_right_eq_some.1 h
          obtain rfl := Option.some.inj heq
          exact ⟨hP, Machine.Step.start (S := machine pf) hidle (Start.datagram hauth)⟩
      · exact absurd h (by simp)

theorem move_start {c c' : AppConfig F} {mv : Move F} (hmv : ∀ t, mv ≠ .advance t)
    (h : move pf P c mv = some c') :
    ∃ t, P c (t, none) ∧ (machine pf).Step c (t, none) c' :=
  ⟨mv.thread, move_thread hmv h⟩

theorem move_run {c c' : AppConfig F} {mv : Move F} (h : move pf P c mv = some c') :
    (machine pf).Run P c c' := by
  by_cases hmv : ∃ t, mv = .advance t
  · obtain ⟨t, rfl⟩ := hmv
    simp only [move] at h
    split at h
    · obtain rfl := Option.some.inj h
      exact Relation.ReflTransGen.refl
    · next hstack =>
        obtain ⟨hP, hfire⟩ := Option.ite_none_right_eq_some.1 h
        exact Relation.ReflTransGen.single ⟨_, hP, Machine.Step.fire hstack hfire⟩
  · obtain ⟨t, hP, hstep⟩ := move_start (fun t ht => hmv ⟨t, ht⟩) h
    exact Relation.ReflTransGen.single ⟨_, hP, hstep⟩

/-- What a schedule reaches is reached by a run. -/
theorem play_run {c c' : AppConfig F} {mvs : List (Move F)} (h : play pf P c mvs = some c') :
    (machine pf).Run P c c' := by
  induction mvs generalizing c with
  | nil =>
      obtain rfl := Option.some.inj h
      exact Relation.ReflTransGen.refl
  | cons mv rest ih =>
      obtain ⟨c₁, hmove, hrest⟩ := Option.bind_eq_some_iff.1 h
      exact (move_run hmove).trans (ih hrest)

end Play

/-! ## Schedules with a history variable -/

section PlayWatched

variable {G : Type} (pf : Platform F)
  (watch : AppConfig F → Thread × Option (AppFrame F) → AppConfig F → G → G)
  (P : AppConfig F × G → Thread × Option (AppFrame F) → Prop) [∀ x a, Decidable (P x a)]

/-- Carry out a decision and keep the history. -/
def moveWatched (x : AppConfig F × G) (mv : Move F) : Option (AppConfig F × G) :=
  match mv with
  | .advance t =>
      match x.1.stack t with
      | [] => some x
      | f :: rest =>
          if P x (t, some f) then
            ((machine pf).fire t f rest x.1).map fun c' => (c', watch x.1 (t, some f) c' x.2)
          else none
  | mv => (move pf (fun c a => P (c, x.2) a) x.1 mv).map fun c' =>
      (c', watch x.1 (mv.thread, none) c' x.2)

/-- Carry out a schedule and keep the history. -/
def playWatched (x : AppConfig F × G) : List (Move F) → Option (AppConfig F × G)
  | [] => some x
  | mv :: rest => (moveWatched pf watch P x mv).bind fun y => playWatched y rest

variable {pf watch P}

/-- What a schedule reaches is reached by a run, with the same history. -/
theorem playWatched_watched {x y : AppConfig F × G} {mvs : List (Move F)}
    (h : playWatched pf watch P x mvs = some y) : (machine pf).Watched watch P x y := by
  induction mvs generalizing x with
  | nil =>
      obtain rfl := Option.some.inj h
      exact Relation.ReflTransGen.refl
  | cons mv rest ih =>
      obtain ⟨x₁, hfirst, hrest⟩ := Option.bind_eq_some_iff.1 h
      refine Relation.ReflTransGen.trans ?_ (ih hrest)
      unfold moveWatched at hfirst
      split at hfirst
      · next t =>
          split at hfirst
          · obtain rfl := Option.some.inj hfirst
            exact Relation.ReflTransGen.refl
          · next f fs hstack =>
              obtain ⟨hP, hmap⟩ := Option.ite_none_right_eq_some.1 hfirst
              obtain ⟨c', hfire, rfl⟩ := Option.map_eq_some_iff.1 hmap
              exact .single ⟨_, hP, .fire hstack hfire, rfl⟩
      · next hmv =>
          obtain ⟨c', hmove, rfl⟩ := Option.map_eq_some_iff.1 hfirst
          obtain ⟨hP, hstep⟩ := move_thread (fun t ht => hmv t ht) hmove
          exact .single ⟨_, hP, hstep, rfl⟩

end PlayWatched

end App

end ReflectPytest
