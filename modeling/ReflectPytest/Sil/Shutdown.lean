import ReflectPytest.Sil.Replies
import ReflectPytest.Library.Retirement

set_option autoImplicit false

/-! # Shutdown

At the end of `main` the services are destroyed one by one, in index order or in reverse. Each
destructor joins the thread of its own service only, while the bus and the logger keep calling all
of them. -/

namespace ReflectPytest

open LockedBus LockedBus.System

namespace Sil

variable {F : Type}

/-- A service is retired by the end of its destructor. -/
def lifetimes : Lifetimes Thread Service (State F) where
  gone s h := h ∈ s.destroyed
  retire := finish
  gone_retire h _ s h' := List.mem_cons (a := h') (b := h) (l := s.destroyed)

variable [FloatOps F]

/-! ## Only destructors destroy -/

omit [FloatOps F] in
theorem regular_of_eq {action : Thread → State F → State F}
    (h : ∀ t s, (action t s).destroyed = s.destroyed) : lifetimes.Regular action := by
  refine .inr fun t s h' => ?_
  show h' ∈ (action t s).destroyed ↔ h' ∈ s.destroyed
  rw [h t s]

omit [FloatOps F] in
theorem Local.regular {action : Thread → State F → State F} (h : Local action) :
    lifetimes.Regular action :=
  regular_of_eq fun t s => (h t s).2.2

omit [FloatOps F] in
theorem send_destroyed (payload : Call F) (t : Thread) (s : State F) :
    (send payload t s).destroyed = s.destroyed := by
  unfold send
  split <;> rfl

omit [FloatOps F] in
theorem forwardToUdp_regular (c : Call F) : (forwardToUdp c).Acts lifetimes.Regular :=
  ⟨regular_of_eq (send_destroyed c), fun _ => trivial⟩

omit [FloatOps F] in
theorem destroyAll_regular (services : List Service) :
    (destroyAll (F := F) services).Acts lifetimes.Regular := by
  induction services with
  | nil => trivial
  | cons h rest ih =>
      have hfinish : Prog.Acts (C := Call F) lifetimes.Regular
          (.act (finish h) fun _ => destroyAll rest) := ⟨.inl ⟨h, rfl⟩, fun _ => ih⟩
      cases h
      case state | log | udpBridge => exact ⟨regular_of_eq fun _ _ => rfl, fun _ => hfinish⟩
      all_goals exact hfinish

/-- Services are destroyed by the ends of their destructors only. -/
theorem system_complete (pf : Platform F) (order : List Service) :
    lifetimes.Complete (system pf order) where
  code h c := code_acts pf h c Local.regular forwardToUdp_regular
  record := by
    intro c s h
    cases c <;> exact Iff.rfl
  start := by
    rintro t s s' p ⟨a, -, hbegins⟩
    refine ⟨fun h => ?_, begins_acts hbegins Local.regular ?_ (destroyAll_regular order)⟩
    · show h ∈ s'.destroyed ↔ h ∈ s.destroyed
      rw [(begins_local hbegins).2.2]
    · exact fun _ _ => regular_of_eq fun _ _ => rfl

/-! ## Destroyed services that are called -/

/-- No `on_message` and no `LogService::log` is called on a service whose destructor has
    finished. -/
def CallsAlive (c : SilConfig F) : Prop :=
  ∀ t h call rest, c.stack t = .invoke h call :: rest → h ∉ c.world.destroyed

/-- The steps of a clean shutdown: nothing is published and no line is logged to a service whose
    destructor has finished, and no destructor finishes while a publish under way has yet to get to
    its service. -/
abbrev Timely (pf : Platform F) (order : List Service) :
    SilConfig F → Thread × Option (SilFrame F) → Prop :=
  lifetimes.Timely (system pf order)

/-- A scheduler that never puts off a thread that holds a mutex or is on its way to a handler. -/
def Prompt (Q : SilConfig F → Thread × Option (SilFrame F) → Prop) : Prop :=
  ∀ c t f, Lifetimes.Busy c t → Q c (t, some f)

/-- **Shutdown.** In every run of timely steps only services that are still there are called. And
    nothing less will do: if under a prompt scheduler only such services are called, then all steps
    under this scheduler are timely. -/
theorem shutdown_callsAlive (pf : Platform F) (order : List Service) :
    (∀ c, (system pf order).Run (Timely pf order) (idle .init) c → CallsAlive c) ∧
    ∀ Q, Prompt Q → (∀ c, (system pf order).Run Q (idle .init) c → CallsAlive c) →
      ∀ c a c', (system pf order).Run Q (idle .init) c → Q c a → (system pf order).Step c a c' →
        Timely pf order c a := by
  have hcomplete := system_complete pf order
  refine ⟨fun c hrun t h call rest htop => ?_, fun Q hQ halive => ?_⟩
  · exact (hcomplete.run_idle hrun).not_gone htop
  · exact hcomplete.timely_of_never_invoked (system_disciplined pf order) (system_descends pf order)
      (code_neverAwaits pf) mutexRank_lt hQ halive

/-! ## A tick during the destruction -/

/-- The service a thread is about to call. -/
def calling (c : SilConfig F) (t : Thread) : Option Service :=
  match c.stack t with
  | .invoke h _ :: _ => some h
  | _ => none

omit [FloatOps F] in
theorem not_callsAlive {c : SilConfig F} {t : Thread} {h : Service} (ht : calling c t = some h)
    (hh : h ∈ c.world.destroyed) : ¬ CallsAlive c := by
  intro halive
  unfold calling at ht
  split at ht
  · next call rest htop =>
      obtain rfl := Option.some.inj ht
      exact halive t _ call rest htop hh
  · exact nomatch ht

/-- `MotorService` is destroyed first, and the clock goes on. -/
def tickAfterMotor : List (Move ℚ) :=
  [.start .signal, .advance .outside 1, .start .heartbeat, .advance .heartbeat 2, .start .main,
    .advance .main 1, .start .clock, .advance .clock 28]

/-- The bridge, the log sink and `AutonomousService` are destroyed first, and the clock goes
    on. -/
def tickAfterAutonomous : List (Move ℚ) :=
  [.start .signal, .advance .outside 1, .start .heartbeat, .advance .heartbeat 2, .start .main,
    .advance .main 1, .start (.rx ⟨2130706433, 40000⟩ none), .advance .rx 2, .advance .main 5,
    .start .worker, .advance .worker 5, .advance .main 3, .start .clock, .advance .clock 28]

/-- Neither order of destruction is safe. -/
theorem tick_calls_destroyed :
    (¬ ∀ c : SilConfig ℚ, Reachable (.libstdcxx fun _ _ => 0) Service.all c → CallsAlive c) ∧
    ¬ ∀ c : SilConfig ℚ,
      Reachable ⟨Service.all, .refl _, fun _ _ => 0, 10000⟩ Service.all.reverse c →
        CallsAlive c := by
  constructor
  · intro hall
    have hplay : ((play (.libstdcxx fun _ _ => 0) Service.all (idle .init) tickAfterMotor).map
        fun c => (calling c .clock, c.world.destroyed)) = some (some .motor, [.motor]) := by
      decide +kernel
    obtain ⟨c, hc, heq⟩ := Option.map_eq_some_iff.1 hplay
    obtain ⟨hcalling, hdestroyed⟩ := Prod.mk.inj heq
    exact not_callsAlive hcalling (hdestroyed ▸ List.mem_cons_self) (hall c (play_run hc))
  · intro hall
    have hplay : ((play ⟨Service.all, .refl _, fun _ _ => 0, 10000⟩ Service.all.reverse (idle .init)
        tickAfterAutonomous).map fun c => (calling c .clock, c.world.destroyed)) =
          some (some .autonomous, [.autonomous, .log, .udpBridge]) := by
      decide +kernel
    obtain ⟨c, hc, heq⟩ := Option.map_eq_some_iff.1 hplay
    obtain ⟨hcalling, hdestroyed⟩ := Prod.mk.inj heq
    exact not_callsAlive hcalling (hdestroyed ▸ List.mem_cons_self) (hall c (play_run hc))

/-! ## A clean shutdown -/

/-- No thread is on its way to a handler. -/
def noneCalled (c : SilConfig F) : Bool :=
  decide (∀ t : Thread, (c.stack t).all fun
    | .invoke _ _ => false
    | .run _ _ => true)

/-- The frame calls nothing that is destroyed, and destroys nothing that is about to be called. -/
def harmless (pf : Platform F) (c : SilConfig F) (t : Thread) : SilFrame F → Bool
  | .run _ (.call call _) => (receivers pf call).all fun h => h ∉ c.world.destroyed
  | .run _ (.act action _) => (action t c.world).destroyed == c.world.destroyed || noneCalled c
  | _ => true

theorem timely_of_harmless {pf : Platform F} {order : List Service} {c : SilConfig F} {t : Thread}
    {f : SilFrame F} (h : harmless pf c t f = true) : Timely pf order c (t, some f) where
  calls o call next hf h' hmem := by
    obtain rfl := Option.some.inj hf
    have hthere : h' ∉ c.world.destroyed := of_decide_eq_true (List.all_eq_true.1 h h' hmem)
    exact hthere
  retires o h' next hf := by
    obtain rfl := Option.some.inj hf
    rintro ⟨t', call, hmem⟩
    have hdestroyed : (lifetimes.retire h' t c.world).destroyed ≠ c.world.destroyed :=
      List.cons_ne_self _ _
    have hnone : noneCalled c = true :=
      (Bool.or_eq_true_iff.1 h).resolve_left (by simpa using hdestroyed)
    exact absurd (List.all_eq_true.1 (of_decide_eq_true hnone t') _ hmem) Bool.false_ne_true

/-- Fire `n` harmless frames of `t`. -/
def advancesTimely (pf : Platform F) (order : List Service) (t : Thread) :
    Nat → SilConfig F → Option (SilConfig F)
  | 0, c => some c
  | n + 1, c =>
      if (c.stack t).head?.all (harmless pf c t) then
        ((system pf order).advance t c).bind (advancesTimely pf order t n)
      else none

theorem advancesTimely_run {pf : Platform F} {order : List Service} {t : Thread} {n : Nat}
    {c c' : SilConfig F} (h : advancesTimely pf order t n c = some c') :
    (system pf order).Run (Timely pf order) c c' := by
  induction n generalizing c with
  | zero =>
      obtain rfl := Option.some.inj h
      exact Relation.ReflTransGen.refl
  | succ n ih =>
      obtain ⟨hharmless, hadvance⟩ := Option.ite_none_right_eq_some.1 h
      obtain ⟨c₁, hfirst, hrest⟩ := Option.bind_eq_some_iff.1 hadvance
      unfold advance at hfirst
      split at hfirst
      · cases hfirst
      · next f rest htop =>
          obtain ⟨hready, heq⟩ := Option.ite_none_right_eq_some.1 hfirst
          obtain rfl := Option.some.inj heq
          rw [htop] at hharmless
          exact .head ⟨_, timely_of_harmless hharmless, .fire htop hready⟩ (ih hrest)

/-- Carry out a schedule as long as its steps are harmless. -/
def playTimely (pf : Platform F) (order : List Service) (c : SilConfig F) :
    List (Move F) → Option (SilConfig F)
  | [] => some c
  | .start a :: rest => (move pf order c (.start a)).bind fun c' => playTimely pf order c' rest
  | .advance t n :: rest =>
      (advancesTimely pf order t n c).bind fun c' => playTimely pf order c' rest

/-- What such a schedule reaches is reached by a run of timely steps. -/
theorem playTimely_run {pf : Platform F} {order : List Service} {c c' : SilConfig F}
    {mvs : List (Move F)} (h : playTimely pf order c mvs = some c') :
    (system pf order).Run (Timely pf order) c c' := by
  induction mvs generalizing c with
  | nil =>
      obtain rfl := Option.some.inj h
      exact Relation.ReflTransGen.refl
  | cons mv rest ih =>
      cases mv with
      | start a =>
          obtain ⟨c₁, hmove, hrest⟩ := Option.bind_eq_some_iff.1 h
          have htimely : Timely pf order c (a.thread, none) :=
            ⟨by rintro _ _ _ ⟨⟩, by rintro _ _ _ ⟨⟩⟩
          exact .head ⟨_, htimely, step_of_start hmove⟩ (ih hrest)
      | advance t n =>
          obtain ⟨c₁, hadvances, hrest⟩ := Option.bind_eq_some_iff.1 h
          exact (advancesTimely_run hadvances).trans (ih hrest)

/-- A tick, a request and a heartbeat, and then every thread stops before what it calls is gone. -/
def cleanShutdown : List (Move ℚ) :=
  [.start .clock, .advance .clock 39, .start (.rx ⟨2130706433, 40000⟩ (some .stateRequest)),
    .advance .rx 16, .start .heartbeat, .advance .heartbeat 7, .start .signal, .advance .outside 1,
    .start .heartbeat, .advance .heartbeat 2, .start .worker, .advance .worker 11,
    .start .main, .advance .main 4, .start .clock, .advance .clock 2,
    .advance .main 8, .start .worker, .advance .worker 5, .advance .main 3,
    .start (.rx ⟨2130706433, 40000⟩ none), .advance .rx 2, .advance .main 3]

theorem cleanShutdown_callsAlive : ∃ c : SilConfig ℚ,
    (system (.libstdcxx fun _ _ => 0) Service.all).Run
      (Timely (.libstdcxx fun _ _ => 0) Service.all) (idle .init) c ∧
    (∀ h, h ∈ c.world.destroyed) ∧ CallsAlive c := by
  have hplay : ((playTimely (.libstdcxx fun _ _ => 0) Service.all (idle .init)
      cleanShutdown).map fun c => c.world.destroyed) = some Service.all.reverse := by
    decide +kernel
  obtain ⟨c, hc, hdestroyed⟩ := Option.map_eq_some_iff.1 hplay
  have hrun := playTimely_run hc
  refine ⟨c, hrun, fun h => ?_, (shutdown_callsAlive _ _).1 c hrun⟩
  rw [hdestroyed]
  cases h <;> decide

end Sil

end ReflectPytest
