import ReflectPytest.Concurrency.AppThreads
import ReflectPytest.Library.Frames

set_option autoImplicit false

/-! # Who asks for the state

Only a datagram asks `StateService` for its state, so the reply is published by the thread of the
bridge, and nothing else that thread does can come in between. -/

namespace ReflectPytest

open SyncBus

variable {F : Type} [FloatOps F]

namespace App

/-- The message is about the state. -/
def AboutState (m : Msg F) : Prop := m.id = .stateRequest ∨ m.id = .stateData

/-- Code that has nothing to say about the state, and leaves the history alone. -/
structure Reticent (code : Code (World F) (Msg F)) : Prop where
  emits : code.Emits fun m => ¬ AboutState m
  grows : code.Grows fun w w' => w'.history = w.history

/-- A frame of a thread: outside the bridge it is not about the state, and wherever a handler goes
    on after a publish, it is no longer. -/
def Discreet (t : Thread) : AppFrame F → Prop
  | .publish m => t ≠ .bridge → ¬ AboutState m
  | .call _ m => t ≠ .bridge → ¬ AboutState m
  | .resume code _ => Reticent code

omit [FloatOps F] in
theorem reticent_done : Reticent (.done : Code (World F) (Msg F)) := ⟨trivial, trivial⟩

/-- Only `StateService` answers a request for the state. -/
theorem answers_aboutState {h : Service} {id id' : MsgId} (hid : id' ∈ h.answers id)
    (habout : id' = .stateRequest ∨ id' = .stateData) : h = .state ∧ id = .stateRequest := by
  cases h <;> cases id <;> simp only [Service.answers, List.not_mem_nil] at hid <;>
    rcases habout with rfl | rfl <;> simp at hid ⊢

/-- Every other handler is reticent from the start. -/
theorem code_reticent (pf : Platform F) {h : Service} {m : Msg F}
    (hne : ¬ (h = .state ∧ m.id = .stateRequest)) : Reticent (code pf h m) :=
  ⟨(code_emits pf h m).mono fun _ hm' habout => hne (answers_aboutState hm' habout),
    code_grows_history pf h m⟩

omit [FloatOps F] in
/-- What reticent code leaves on the stack is discreet. -/
theorem frames_discreet {code : Code (World F) (Msg F)} (hcode : Reticent code) {t : Thread}
    {lock : Option Mutex} {w : World F} {f : AppFrame F} (hf : f ∈ code.frames lock w) :
    Discreet t f := by
  cases code with
  | done => exact absurd hf List.not_mem_nil
  | step sec next =>
      rcases List.mem_append.1 hf with hf | hf
      · obtain ⟨m, hm, rfl⟩ := List.mem_map.1 hf
        exact fun _ => hcode.emits.1 w m hm
      · rw [List.mem_singleton.1 hf]
        exact ⟨hcode.emits.2 w, hcode.grows.2 w⟩

/-- A discreet frame is replaced by discreet ones. -/
theorem unfold_discreet (pf : Platform F) {t : Thread} {w : World F} {f : AppFrame F}
    (hf : Discreet t f) : ∀ g ∈ f.unfold (machine pf) w, Discreet t g := by
  intro g hg
  cases f with
  | publish m =>
      obtain ⟨h, -, rfl⟩ := List.mem_map.1 hg
      exact hf
  | resume code lock => exact frames_discreet hf hg
  | call h m =>
      by_cases hasks : h = .state ∧ m.id = .stateRequest
      · obtain ⟨rfl, hid⟩ := hasks
        have hbridge : ¬ t ≠ .bridge := fun ht => hf ht (.inl hid)
        cases m <;> simp only [Msg.id, reduceCtorEq] at hid
        rcases List.mem_append.1 hg with hg | hg
        · rw [List.mem_singleton.1 hg]
          exact fun ht => absurd ht hbridge
        · rw [List.mem_singleton.1 hg]
          exact reticent_done
      · exact frames_discreet (code_reticent pf hasks) hg

/-- **Only the bridge is about the state**, in every reachable configuration. -/
theorem reachable_discreet (pf : Platform F) {c : AppConfig F} (hreach : Reachable pf c) :
    ∀ t, ∀ f ∈ c.stack t, Discreet t f := by
  refine hreach.invariant (I := fun c => ∀ t, ∀ f ∈ c.stack t, Discreet t f)
    (fun _ _ hf => absurd hf List.not_mem_nil) fun c a c' hc _ hstep => ?_
  refine hstep.frames hc (fun _ _ _ => id) (fun t f rest _ _ hf => unfold_discreet pf hf) ?_
  rintro t w ms - hstart m hm hbridge
  cases hstart with
  | tick _ =>
      rw [List.mem_singleton.1 hm]
      exact fun habout => habout.elim MsgId.noConfusion MsgId.noConfusion
  | datagram _ => exact absurd rfl hbridge
  | snapshot _ | wait _ => exact absurd hm List.not_mem_nil

/-! ## What a step adds to the history -/

/-- A step publishes the message of its frame, takes the clock's snapshot, or adds nothing. -/
inductive Adds (c : AppConfig F) : Thread × Option (AppFrame F) → List (Record F) → Prop
  | nothing {a : Thread × Option (AppFrame F)} : Adds c a c.world.history
  | published {t : Thread} {m : Msg F} :
      Adds c (t, some (.publish m)) (.published m :: c.world.history)
  | snapshot {tick : PhysicsTickPayload} : Adds c (.clock, none) (.snapshot tick :: c.world.history)

omit [FloatOps F] in
theorem run_history_eq {c : AppConfig F} {t : Thread} {rest : List (AppFrame F)}
    {code : Code (World F) (Msg F)} {lock : Option Mutex}
    (hcode : code.Grows fun w w' => w'.history = w.history) :
    (c.run t rest code lock).world.history = c.world.history := by
  cases code with
  | done => rfl
  | step sec next => exact hcode.1 c.world

theorem step_adds (pf : Platform F) {c c' : AppConfig F} {a : Thread × Option (AppFrame F)}
    (hreach : Reachable pf c) (hstep : (machine pf).Step c a c') : Adds c a c'.world.history := by
  cases hstep with
  | start _ hstart => cases hstart <;> first | exact .nothing | exact .snapshot
  | @fire _ t f rest htop hfire =>
      cases f with
      | publish m =>
          obtain rfl := Option.some.inj hfire
          exact .published
      | call h m =>
          obtain rfl := Option.some.inj (Option.ite_none_right_eq_some.1 hfire).2
          have hsame : (c.run t rest (code pf h m) h.mutex).world.history = c.world.history :=
            run_history_eq (code_grows_history pf h m)
          exact hsame ▸ .nothing
      | resume code lock =>
          obtain rfl := Option.some.inj hfire
          have hcode : Reticent code :=
            reachable_discreet pf hreach t (.resume code lock) (htop ▸ List.mem_cons_self)
          rw [run_history_eq hcode.grows]
          exact .nothing

end App

end ReflectPytest
