import ReflectPytest.App
import ReflectPytest.Library.CallStacks
import ReflectPytest.Wire.Payloads

set_option autoImplicit false

/-! # MessageBus

One table holds the handlers of all messages, by number, behind closures that take a `std::any`.
`publish` walks through the closures of its number; each runs a handler, which may publish again
before it returns. Handlers are arbitrary code: what the code at a point does next is any relation,
so it may depend on the rest of the program, and it need not end. -/

namespace ReflectPytest

open CallStacks Relation

namespace MessageBus

/-! ## std::any -/

/-- The types of payloads, and the one `MessageTraits` gives each message. -/
structure Traits where
  Ty : Type
  [decEq : DecidableEq Ty]
  El : Ty → Type
  payload : MsgId → Ty

attribute [instance] Traits.decEq

/-- `MessageTraits<Id>::Payload`. -/
abbrev Traits.Payload (X : Traits) (id : MsgId) : Type := X.El (X.payload id)

/-- `std::any`: a value with its type. -/
structure Any (X : Traits) where
  type : X.Ty
  value : X.El type

/-- `std::any_cast`; a bad cast throws. -/
def anyCast {X : Traits} (t : X.Ty) (data : Any X) : Option (X.El t) :=
  if h : data.type = t then some (h ▸ data.value) else none

@[simp] theorem anyCast_self {X : Traits} (t : X.Ty) (v : X.El t) : anyCast t ⟨t, v⟩ = some v := by
  simp [anyCast]

/-! ## subscribe and publish -/

section

-- `C` has the points in the code of handlers
variable (X : Traits) (C : Type)

/-- A handler called with a payload. -/
structure Invocation where
  id : MsgId
  handler : X.Payload id → C
  payload : X.Payload id

/-- A call of `subscribe`. -/
structure Subscription where
  id : MsgId
  handler : X.Payload id → C

/-- What is stored for a handler: it casts its argument and calls the handler. -/
abbrev Closure : Type := Any X → Option (Invocation X C)

/-- `handlers_`. -/
abbrev Handlers : Type := UInt16 → Option (List (Closure X C))

/-- A `publish` in progress: its arguments, the arguments and the loop of `dispatch`, and the calls
    made so far. -/
structure Dispatch where
  id : MsgId
  payload : X.Payload id
  data : Any X
  rest : List (Closure X C)
  called : List (Invocation X C)

/-- What code does next: go on, publish a message and then go on, or return. -/
inductive Action where
  | next (c : C)
  | publish (id : MsgId) (payload : X.Payload id) (c : C)
  | ret

/-- A frame of the call stack. -/
inductive Frame where
  | code (c : C)
  | dispatch (d : Dispatch X C)

inductive Event where
  | returned (d : Dispatch X C)
  | badAnyCast

end

section

variable {X : Traits} {C : Type}

/-- `static_cast<uint16_t>(id)`. -/
def key (id : MsgId) : UInt16 := UInt16.ofNat id.value

theorem key_injective {id id' : MsgId} (h : key id = key id') : id = id' := by
  revert h
  cases id <;> cases id' <;> decide

/-- The closure `subscribe` stores. -/
def closure (s : Subscription X C) : Closure X C :=
  fun data => (anyCast (X.payload s.id) data).map fun p => ⟨s.id, s.handler, p⟩

/-- `subscribe`. -/
def subscribe (handlers : Handlers X C)
    (s : Subscription X C) : Handlers X C :=
  Function.update handlers (key s.id) (some ((handlers (key s.id)).getD [] ++ [closure s]))

/-- The table after some calls of `subscribe`. -/
def subscribeAll (subs : List (Subscription X C)) :
    Handlers X C :=
  subs.foldl subscribe fun _ => none

/-- `publish` up to the loop of `dispatch`; without an entry there is nothing to loop over. -/
def publish (handlers : Handlers X C) (id : MsgId)
    (payload : X.Payload id) : Dispatch X C where
  id := id
  payload := payload
  data := ⟨X.payload id, payload⟩
  rest := (handlers (key id)).getD []
  called := []

/-- What may become of the frame on top: the code that runs does one thing, or the loop of a
    `dispatch` goes on once the handler it has called returns. -/
inductive Rules (handlers : Handlers X C)
    (acts : C → Action X C → Prop) :
    Frame X C → List (Frame X C) →
      List (Event X C) → Prop where
  | next {c c' : C} (h : acts c (.next c')) : Rules handlers acts (.code c) [.code c'] []
  | publish {c c' : C} {id : MsgId} {payload : X.Payload id}
      (h : acts c (.publish id payload c')) :
      Rules handlers acts (.code c) [.dispatch (publish handlers id payload), .code c'] []
  | ret {c : C} (h : acts c .ret) : Rules handlers acts (.code c) [] []
  | call {d : Dispatch X C} {f : Closure X C}
      {rest : List (Closure X C)}
      {inv : Invocation X C}
      (h : d.rest = f :: rest) (hcast : f d.data = some inv) :
      Rules handlers acts (.dispatch d) [.code (inv.handler inv.payload),
        .dispatch { d with rest := rest, called := d.called ++ [inv] }] []
  | badAnyCast {d : Dispatch X C} {f : Closure X C}
      {rest : List (Closure X C)}
      (h : d.rest = f :: rest) (hcast : f d.data = none) :
      Rules handlers acts (.dispatch d) [] [.badAnyCast]
  | returned {d : Dispatch X C} (h : d.rest = []) :
      Rules handlers acts (.dispatch d) [] [.returned d]

/-! ## Fan-out -/

/-- The calls a message is for: the handlers subscribed to it, in the order they subscribed. -/
def fanout (subs : List (Subscription X C)) (id : MsgId)
    (payload : X.Payload id) : List (Invocation X C) :=
  subs.filterMap fun s =>
    if h : s.id = id then some ⟨s.id, s.handler, h ▸ payload⟩ else none

theorem fanout_append (subs subs' : List (Subscription X C)) (id : MsgId)
    (payload : X.Payload id) :
    fanout (subs ++ subs') id payload = fanout subs id payload ++ fanout subs' id payload :=
  List.filterMap_append

/-- **What is stored under a number** are the closures of that message. -/
theorem subscribeAll_calls (subs : List (Subscription X C)) (id : MsgId)
    (payload : X.Payload id) :
    ((subscribeAll subs (key id)).getD []).map (fun f => f ⟨X.payload id, payload⟩) =
      (fanout subs id payload).map some := by
  induction subs using List.reverseRecOn with
  | nil => rfl
  | append_singleton subs s ih =>
      rw [fanout_append, List.map_append, ← ih, subscribeAll, List.foldl_append, List.foldl_cons,
        List.foldl_nil, ← subscribeAll, subscribe]
      obtain ⟨id', handler⟩ := s
      by_cases hid : id' = id
      · subst hid
        simp [fanout, closure]
      · have hkey : key id ≠ key id' := fun h => hid (key_injective h).symm
        simp [fanout, hid, hkey]

/-- The calls made and those still to come are the ones the message is for; the loop holds the
    closures of the latter. -/
structure Dispatch.Serves (subs : List (Subscription X C))
    (d : Dispatch X C) : Prop where
  data : d.data = ⟨X.payload d.id, d.payload⟩
  calls : ∃ left, d.called ++ left = fanout subs d.id d.payload ∧
    d.rest.map (fun f => f d.data) = left.map some

section

variable {subs : List (Subscription X C)}
  {acts : C → Action X C → Prop} {d : Dispatch X C}
  {f : Closure X C} {rest : List (Closure X C)}

theorem serves_publish (subs : List (Subscription X C)) (id : MsgId)
    (payload : X.Payload id) : (publish (subscribeAll subs) id payload).Serves subs :=
  ⟨rfl, fanout subs id payload, rfl, subscribeAll_calls subs id payload⟩

/-- The next closure has the next call. -/
theorem Dispatch.Serves.next (h : d.Serves subs) (hrest : d.rest = f :: rest) :
    ∃ inv, f d.data = some inv ∧
      Serves subs { d with rest := rest, called := d.called ++ [inv] } := by
  obtain ⟨hdata, left, hleft, hmap⟩ := h
  rw [hrest] at hmap
  cases left with
  | nil => exact absurd hmap (by simp)
  | cons inv left =>
      rw [List.map_cons, List.map_cons, List.cons.injEq] at hmap
      refine ⟨inv, hmap.1, hdata, left, ?_, hmap.2⟩
      rw [← hleft, List.append_assoc]
      rfl

/-- At the end of the loop all calls have been made. -/
theorem Dispatch.Serves.called_eq (h : d.Serves subs) (hrest : d.rest = []) :
    d.called = fanout subs d.id d.payload := by
  obtain ⟨-, left, hleft, hmap⟩ := h
  rw [hrest] at hmap
  have hnil : left = [] := List.map_eq_nil_iff.1 hmap.symm
  rw [hnil, List.append_nil] at hleft
  exact hleft

/-- A publish among the frames serves its message. -/
def Frame.Serves (subs : List (Subscription X C)) :
    Frame X C → Prop
  | .code _ => True
  | .dispatch d => d.Serves subs

/-- No cast is bad, and a publish that returns has called whom it is for. -/
def Event.Right (subs : List (Subscription X C)) :
    Event X C → Prop
  | .returned d => d.called = fanout subs d.id d.payload
  | .badAnyCast => False

theorem Rules.frames {frame : Frame X C}
    {frames : List (Frame X C)} {events : List (Event X C)}
    (h : Rules (subscribeAll subs) acts frame frames events) (hframe : frame.Serves subs) :
    ∀ g ∈ frames, g.Serves subs := by
  cases h with
  | next h => simp [Frame.Serves]
  | publish h => simp [Frame.Serves, serves_publish]
  | ret h => simp
  | call h hcast =>
      obtain ⟨inv, hinv, hserves⟩ := Dispatch.Serves.next hframe h
      obtain rfl := Option.some.inj (hcast.symm.trans hinv)
      simpa [Frame.Serves] using hserves
  | badAnyCast h hcast => simp
  | returned h => simp

theorem Rules.events {frame : Frame X C}
    {frames : List (Frame X C)} {events : List (Event X C)}
    (h : Rules (subscribeAll subs) acts frame frames events) (hframe : frame.Serves subs) :
    ∀ e ∈ events, e.Right subs := by
  cases h with
  | badAnyCast h hcast =>
      obtain ⟨inv, hinv, -⟩ := Dispatch.Serves.next hframe h
      exact absurd (hcast.symm.trans hinv) (by simp)
  | returned h => simpa [Event.Right] using Dispatch.Serves.called_eq hframe h
  | _ => simp

/-- A `dispatch` that finds itself on top goes on. -/
theorem Rules.progress (handlers : Handlers X C) (acts : C → Action X C → Prop)
    (d : Dispatch X C) : ∃ frames events, Rules handlers acts (.dispatch d) frames events := by
  cases hrest : d.rest with
  | nil => exact ⟨_, _, .returned hrest⟩
  | cons f rest =>
      cases hcast : f d.data with
      | none => exact ⟨_, _, .badAnyCast hrest hcast⟩
      | some inv => exact ⟨_, _, .call hrest hcast⟩

end

/-- The program that starts at `main` with an empty stack below. -/
def start (main : C) : List (Frame X C) × List (Event X C) := ([.code main], [])

/-- **Every publish reaches its handlers, and nothing else**: no cast is bad; a publish that has
    returned has called the handlers of its message in order, with its payload; one in progress has
    called the first of them and holds its payload and the closures of the others; these stay as
    they are while a handler it has called runs; and it goes on when the handler returns. -/
theorem exact_fanout (subs : List (Subscription X C)) (acts : C → Action X C → Prop) (main : C)
    {stack : List (Frame X C)} {trace : List (Event X C)}
    (hrun : ReflTransGen (Step (Rules (subscribeAll subs) acts)) (start main) (stack, trace)) :
    .badAnyCast ∉ trace ∧
    (∀ d, .returned d ∈ trace → d.called = fanout subs d.id d.payload) ∧
    (∀ d, .dispatch d ∈ stack → d.data = ⟨X.payload d.id, d.payload⟩ ∧
      ∃ left, d.called ++ left = fanout subs d.id d.payload ∧
        d.rest.map (fun f => f d.data) = left.map some) ∧
    (∀ above d below stack' trace', stack = above ++ .dispatch d :: below →
      ReflTransGen (StepAbove (Rules (subscribeAll subs) acts) (.dispatch d :: below))
        (stack, trace) (stack', trace') → ∃ above', stack' = above' ++ .dispatch d :: below) ∧
    ∀ d below, stack = .dispatch d :: below →
      ∃ s, Step (Rules (subscribeAll subs) acts) (stack, trace) s := by
  obtain ⟨hframes, hevents⟩ := run_induction (fun _ _ _ h => h.frames)
    (fun _ _ _ h => h.events) hrun (by simp [start, Frame.Serves]) (by simp [start])
  refine ⟨fun h => hevents _ h, fun d h => hevents _ h, fun d h => ?_, ?_, ?_⟩
  · obtain ⟨hdata, hcalls⟩ : d.Serves subs := hframes _ h
    exact ⟨hdata, hcalls⟩
  · intro above d below stack' trace' hstack habove
    obtain ⟨above', hsuffix⟩ := run_above habove ⟨above, hstack.symm⟩
    exact ⟨above', hsuffix.symm⟩
  · rintro d below rfl
    obtain ⟨frames, events, h⟩ := Rules.progress (subscribeAll subs) acts d
    exact ⟨_, .top below trace h⟩

end

/-! ## A nested publish -/

/-- Every payload is a number. -/
def numbers : Traits where
  Ty := MsgId
  El := fun _ => Nat
  payload := id

/-- Code that makes the publishes of a list and returns. -/
def publishAll : List (MsgId × Nat) → Action numbers (List (MsgId × Nat)) → Prop
  | [], a => a = .ret
  | (id, n) :: rest, a => a = .publish id n rest

/-- Two handlers of `KinematicsRequest`, of which the first publishes `StateRequest`, and one of
    that. -/
def nestedSubscriptions : List (Subscription numbers (List (MsgId × Nat))) :=
  [⟨.kinematicsRequest, fun (n : Nat) => [(.stateRequest, n + 1)]⟩, ⟨.stateRequest, fun _ => []⟩,
    ⟨.kinematicsRequest, fun _ => []⟩]

/-- The outer publish calls both its handlers although the first one publishes. -/
theorem exact_fanout_nested : ∃ trace d,
    ReflTransGen (Step (Rules (subscribeAll nestedSubscriptions) publishAll))
      (start [(.kinematicsRequest, 42)]) ([.code []], trace) ∧
    .returned d ∈ trace ∧ d.id = .kinematicsRequest ∧ d.called.length = 2 ∧
    d.called = fanout nestedSubscriptions d.id d.payload := by
  have hstart : ReflTransGen (Step (Rules (subscribeAll nestedSubscriptions) publishAll))
      (start [(.kinematicsRequest, 42)]) (start [(.kinematicsRequest, 42)]) := .refl
  have hfirst := (hstart.tail (.top _ _ (.publish rfl))).tail (.top _ _ (.call rfl rfl))
  -- the first handler publishes, and the publish inside runs to its end
  have hinner := (hfirst.tail (.top _ _ (.publish rfl))).tail (.top _ _ (.call rfl rfl))
  have hback := ((hinner.tail (.top _ _ (.ret rfl))).tail (.top _ _ (.returned rfl))).tail
    (.top _ _ (.ret rfl))
  have hrun := ((hback.tail (.top _ _ (.call rfl rfl))).tail (.top _ _ (.ret rfl))).tail
    (.top _ _ (.returned rfl))
  obtain ⟨-, hcalled, -⟩ := exact_fanout nestedSubscriptions publishAll _ hrun
  refine ⟨_, _, hrun, List.mem_append_right _ (List.mem_singleton_self _), rfl, rfl, ?_⟩
  exact hcalled _ (List.mem_append_right _ (List.mem_singleton_self _))

/-! ## The services -/

section

variable {X : Traits} {C : Type}

/-- `bind_subscriptions` for the services in turn. -/
def bindSubscriptions (order : List Service)
    (onMessage : Service → (id : MsgId) → X.Payload id → C) : List (Subscription X C) :=
  order.flatMap fun h => h.subscribes.map fun id => ⟨id, onMessage h id⟩

/-- **The handlers of a message** are those of its subscribers, in the order of construction. -/
theorem fanout_bindSubscriptions (order : List Service)
    (onMessage : Service → (id : MsgId) → X.Payload id → C) (id : MsgId)
    (payload : X.Payload id) :
    fanout (bindSubscriptions order onMessage) id payload =
      (order.filter fun h => decide (id ∈ h.subscribes)).map fun h =>
        ⟨id, onMessage h id, payload⟩ := by
  induction order with
  | nil => rfl
  | cons h order ih =>
      have hone : fanout (h.subscribes.map fun id' => ⟨id', onMessage h id'⟩) id payload =
          if id ∈ h.subscribes then [⟨id, onMessage h id, payload⟩] else [] := by
        cases h <;> cases id <;> rfl
      rw [bindSubscriptions, List.flatMap_cons, ← bindSubscriptions, fanout_append, ih, hone,
        List.filter_cons]
      by_cases hmem : id ∈ h.subscribes <;> simp [hmem]

end

end MessageBus

end ReflectPytest
