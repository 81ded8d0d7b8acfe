import Mathlib.Data.Finset.Insert
import ReflectPytest.App
import ReflectPytest.Wire.Payloads

set_option autoImplicit false

/-! # The message flow diagram

`generate_docs` draws an edge for each message from one component to another and gives each message
a direction. It does so from four questions: whether the bridge publishes the message or subscribes
to it, and whether any other component does. What it draws is compared with the two lists of every
component. -/

namespace ReflectPytest

/-! ## Components -/

/-- A component type: whether it is `ipc::UdpBridge`, its `cpp_type_name_str` and its two lists. -/
structure Component where
  isUdpBridge : Bool
  name : String
  subscribes : List MsgId
  publishes : List MsgId
  named : isUdpBridge = true → name = "UdpBridge"

/-- `contains_msg`. -/
def containsMsg (id : MsgId) : List MsgId → Bool
  | [] => false
  | first :: rest => if id = first then true else containsMsg id rest

theorem containsMsg_iff {id : MsgId} {ids : List MsgId} : containsMsg id ids = true ↔ id ∈ ids := by
  induction ids with
  | nil => simp [containsMsg]
  | cons first rest ih =>
      rw [containsMsg, List.mem_cons]
      split
      · next h => simp [h]
      · next h => simp [h, ih]

/-- `component_subscribes`. -/
def componentSubscribes (id : MsgId) (c : Component) : Bool := containsMsg id c.subscribes

/-- `component_publishes`. -/
def componentPublishes (id : MsgId) (c : Component) : Bool := containsMsg id c.publishes

section

variable (components : List Component) (id : MsgId)

/-- `internal_cxx_subscribes`. -/
def internalCxxSubscribes : Bool :=
  components.any fun c => componentSubscribes id c && !c.isUdpBridge

/-- `internal_cxx_publishes`. -/
def internalCxxPublishes : Bool :=
  components.any fun c => componentPublishes id c && !c.isUdpBridge

/-- `py_subscribes`. -/
def pySubscribes : Bool := components.any fun c => componentSubscribes id c && c.isUdpBridge

/-- `py_publishes`. -/
def pyPublishes : Bool := components.any fun c => componentPublishes id c && c.isUdpBridge

end

/-- The direction a message section shows. -/
inductive Direction where
  | internal | inbound | outbound | bidirectional
  deriving DecidableEq, Repr

/-- The `direction` of `emit_md_payload_section`. -/
def direction (components : List Component) (id : MsgId) : Direction :=
  let cxxSub := internalCxxSubscribes components id
  let cxxPub := internalCxxPublishes components id
  let pySub := pySubscribes components id
  let pyPub := pyPublishes components id
  if pyPub && cxxSub && !pySub && !cxxPub then .inbound
  else if cxxPub && pySub && !cxxSub && !pyPub then .outbound
  else if (pyPub || pySub) && (cxxPub || cxxSub) then .bidirectional
  else .internal

/-! ## Edges -/

/-- `dot_id`: what is not a letter or a digit becomes an underscore, byte by byte. -/
def dotId (s : String) : String :=
  let out := s.toList.flatMap fun ch =>
    if ch.isAlphanum then [ch] else List.replicate ch.utf8Size '_'
  String.ofList (if out.head?.all Char.isDigit then '_' :: out else out)

/-- `EdgeMap`: the names of the messages between two nodes. -/
abbrev EdgeMap : Type := String × String → Finset String

/-- `edges[{src, dst}].insert(mname)`. -/
def EdgeMap.insert (edges : EdgeMap) (src dst mname : String) : EdgeMap :=
  Function.update edges (src, dst) (Insert.insert mname (edges (src, dst)))

theorem EdgeMap.mem_insert {edges : EdgeMap} {src dst mname n : String} {key : String × String} :
    n ∈ edges.insert src dst mname key ↔ (n = mname ∧ key = (src, dst)) ∨ n ∈ edges key := by
  unfold EdgeMap.insert
  by_cases hkey : key = (src, dst)
  · subst hkey
    simp
  · simp [hkey]

/-- What is drawn so far. -/
structure Diagram where
  edges : EdgeMap := fun _ => ∅
  inboundMsgNames : Finset String := ∅
  outboundMsgNames : Finset String := ∅

section

variable (components : List Component) (id : MsgId)

/-- `collect_inbound_edges`. -/
def collectInboundEdges (edges : EdgeMap) (mname : String) : EdgeMap :=
  components.foldl (fun edges c =>
    if componentSubscribes id c && !c.isUdpBridge
    then edges.insert (dotId "UdpBridge") (dotId c.name) mname else edges) edges

/-- `collect_outbound_edges`. -/
def collectOutboundEdges (edges : EdgeMap) (mname : String) : EdgeMap :=
  components.foldl (fun edges c =>
    if componentPublishes id c && !c.isUdpBridge
    then edges.insert (dotId c.name) (dotId "UdpBridge") mname else edges) edges

/-- `collect_internal_edges_impl`: the edges from one publisher. -/
def collectInternalEdgesFrom (edges : EdgeMap) (mname pubName : String) : EdgeMap :=
  components.foldl (fun edges c =>
    if componentSubscribes id c && !c.isUdpBridge
    then edges.insert (dotId pubName) (dotId c.name) mname else edges) edges

/-- `collect_internal_edges`. -/
def collectInternalEdges (edges : EdgeMap) (mname : String) : EdgeMap :=
  components.foldl (fun edges c =>
    if componentPublishes id c && !c.isUdpBridge
    then collectInternalEdgesFrom components id edges mname c.name else edges) edges

end

/-- `MessageTraits::name`. -/
def MsgId.name : MsgId → String
  | .log => "Log"
  | .physicsTick => "PhysicsTick"
  | .stateRequest => "StateRequest"
  | .stateData => "StateData"
  | .motorSequence => "MotorSequence"
  | .motorStatus => "MotorStatus"
  | .kinematicsRequest => "KinematicsRequest"
  | .kinematicsData => "KinematicsData"
  | .powerRequest => "PowerRequest"
  | .powerData => "PowerData"
  | .thermalRequest => "ThermalRequest"
  | .thermalData => "ThermalData"
  | .environmentAck => "EnvironmentAck"
  | .environmentRequest => "EnvironmentRequest"
  | .environmentData => "EnvironmentData"
  | .autoDriveCommand => "AutoDriveCommand"
  | .autoDriveStatus => "AutoDriveStatus"
  | .internalEnvRequest => "InternalEnvRequest"
  | .internalEnvData => "InternalEnvData"

theorem MsgId.name_injective {id id' : MsgId} (h : id.name = id'.name) : id = id' := by
  revert h
  cases id <;> cases id' <;> decide

/-- `collect_msg_edges`, for a message with a payload. -/
def collectMsgEdges (components : List Component) (id : MsgId) (d : Diagram) : Diagram :=
  let mname := id.name
  let cxxSub := internalCxxSubscribes components id
  let cxxPub := internalCxxPublishes components id
  let pySub := pySubscribes components id
  let pyPub := pyPublishes components id
  if pyPub && cxxSub && !cxxPub && !pySub then
    { d with
      inboundMsgNames := insert mname d.inboundMsgNames
      edges := collectInboundEdges components id d.edges mname }
  else if cxxPub && pySub && !pyPub && !cxxSub then
    { d with
      outboundMsgNames := insert mname d.outboundMsgNames
      edges := collectOutboundEdges components id d.edges mname }
  else if (pyPub || pySub) && (cxxPub || cxxSub) then
    { inboundMsgNames := insert mname d.inboundMsgNames
      outboundMsgNames := insert mname d.outboundMsgNames
      edges := collectOutboundEdges components id
        (collectInboundEdges components id d.edges mname) mname }
  else if !pyPub && !pySub && cxxPub && cxxSub then
    { d with edges := collectInternalEdges components id d.edges mname }
  else d

/-- What `emit_graphviz_flow_dot` collects: every message in turn. -/
def collectEdges (components : List Component) : Diagram :=
  MsgId.all.foldl (fun d id => collectMsgEdges components id d) {}

/-! ## What the lists say -/

section

variable (components : List Component) (id : MsgId)

def BridgePublishes : Prop := ∃ c ∈ components, c.isUdpBridge = true ∧ id ∈ c.publishes

def BridgeSubscribes : Prop := ∃ c ∈ components, c.isUdpBridge = true ∧ id ∈ c.subscribes

def OthersPublish : Prop := ∃ c ∈ components, c.isUdpBridge = false ∧ id ∈ c.publishes

def OthersSubscribe : Prop := ∃ c ∈ components, c.isUdpBridge = false ∧ id ∈ c.subscribes

/-- The diagram and the direction of a message are what the lists of the components say. -/
structure Faithful : Prop where
  edges : ∀ a ∈ components, ∀ b ∈ components,
    id.name ∈ (collectEdges components).edges (dotId a.name, dotId b.name) ↔
      id ∈ a.publishes ∧ id ∈ b.subscribes
  inbound : id.name ∈ (collectEdges components).inboundMsgNames ↔ BridgePublishes components id
  outbound : id.name ∈ (collectEdges components).outboundMsgNames ↔ BridgeSubscribes components id
  badge : direction components id = .bidirectional →
    BridgePublishes components id ∧ BridgeSubscribes components id

/-- Another component has the node of the bridge and handles the message, and every publisher or
    every subscriber of the message has that node. -/
def SharesBridge : Prop :=
  (∃ c ∈ components, c.isUdpBridge = false ∧ dotId c.name = dotId "UdpBridge" ∧
    (id ∈ c.publishes ∨ id ∈ c.subscribes)) ∧
  ((∀ c ∈ components, id ∈ c.publishes → dotId c.name = dotId "UdpBridge") ∨
    ∀ c ∈ components, id ∈ c.subscribes → dotId c.name = dotId "UdpBridge")

/-- The message does not touch the bridge, or passes it in one direction with nothing else on the
    near side; a message the bridge both publishes and subscribes to needs a second component with
    the node of the bridge. -/
def Drawable : Prop :=
  (¬BridgePublishes components id ∧ ¬BridgeSubscribes components id) ∨
  (BridgePublishes components id ∧ ¬BridgeSubscribes components id ∧
    OthersSubscribe components id ∧ ¬OthersPublish components id) ∨
  (BridgeSubscribes components id ∧ ¬BridgePublishes components id ∧
    OthersPublish components id ∧ ¬OthersSubscribe components id) ∨
  (BridgePublishes components id ∧ BridgeSubscribes components id ∧ SharesBridge components id)

/-- Components with one node exchange the message alike. -/
def Separates : Prop :=
  ∀ a ∈ components, ∀ b ∈ components, ∀ a' ∈ components, ∀ b' ∈ components,
    dotId a.name = dotId a'.name → dotId b.name = dotId b'.name →
      id ∈ a.publishes → id ∈ b.subscribes → id ∈ a'.publishes ∧ id ∈ b'.subscribes

/-- A component with the node publishes the message; it is the bridge or not. -/
def PublisherAt (bridge : Bool) (node : String) : Prop :=
  ∃ c ∈ components, c.isUdpBridge = bridge ∧ id ∈ c.publishes ∧ dotId c.name = node

/-- A component with the node subscribes to the message. -/
def SubscriberAt (bridge : Bool) (node : String) : Prop :=
  ∃ c ∈ components, c.isUdpBridge = bridge ∧ id ∈ c.subscribes ∧ dotId c.name = node

/-- The message is published at one node and subscribed to at the other. -/
def Linked (src dst : String) : Prop :=
  (∃ bridge, PublisherAt components id bridge src) ∧
    ∃ bridge, SubscriberAt components id bridge dst

/-- The edges that are drawn for the message. -/
def Draws (src dst : String) : Prop :=
  let fromBridge := src = dotId "UdpBridge" ∧ SubscriberAt components id false dst
  let toBridge := dst = dotId "UdpBridge" ∧ PublisherAt components id false src
  match direction components id with
  | .inbound => fromBridge
  | .outbound => toBridge
  | .bidirectional => fromBridge ∨ toBridge
  | .internal => PublisherAt components id false src ∧ SubscriberAt components id false dst

end

section

variable {components : List Component} {id : MsgId}

theorem componentSubscribes_iff {c : Component} :
    componentSubscribes id c = true ↔ id ∈ c.subscribes :=
  containsMsg_iff

theorem componentPublishes_iff {c : Component} :
    componentPublishes id c = true ↔ id ∈ c.publishes :=
  containsMsg_iff

theorem pyPublishes_iff : pyPublishes components id = true ↔ BridgePublishes components id := by
  simp [pyPublishes, BridgePublishes, componentPublishes_iff, and_comm]

theorem pySubscribes_iff : pySubscribes components id = true ↔ BridgeSubscribes components id := by
  simp [pySubscribes, BridgeSubscribes, componentSubscribes_iff, and_comm]

theorem internalCxxPublishes_iff :
    internalCxxPublishes components id = true ↔ OthersPublish components id := by
  simp [internalCxxPublishes, OthersPublish, componentPublishes_iff, and_comm]

theorem internalCxxSubscribes_iff :
    internalCxxSubscribes components id = true ↔ OthersSubscribe components id := by
  simp [internalCxxSubscribes, OthersSubscribe, componentSubscribes_iff, and_comm]

/-! ## What is drawn -/

/-- A loop that only adds. -/
theorem foldl_adds {σ α : Type} {P : σ → Prop} {Q : α → Prop} {step : σ → α → σ}
    (h : ∀ s a, P (step s a) ↔ Q a ∨ P s) (l : List α) (s : σ) :
    P (l.foldl step s) ↔ (∃ a ∈ l, Q a) ∨ P s := by
  induction l generalizing s with
  | nil => simp
  | cons a l ih =>
      rw [List.foldl_cons, ih, h]
      simp only [List.mem_cons, exists_eq_or_imp]
      rw [← or_assoc, or_comm (a := ∃ a ∈ l, Q a)]

section

variable {edges : EdgeMap} {mname n src dst : String} {key : String × String}

/-- A loop that adds the edge `(f c, g c)` for each component other than the bridge with `p c`. -/
theorem mem_foldl_insert {p : Component → Bool} {f g : Component → String} :
    n ∈ components.foldl (fun edges c =>
        if p c && !c.isUdpBridge then edges.insert (f c) (g c) mname else edges) edges key ↔
      (n = mname ∧ ∃ c ∈ components, c.isUdpBridge = false ∧ p c = true ∧ key = (f c, g c)) ∨
        n ∈ edges key := by
  refine (foldl_adds (P := fun edges : EdgeMap => n ∈ edges key) (Q := fun c => n = mname ∧
    c.isUdpBridge = false ∧ p c = true ∧ key = (f c, g c)) (fun edges c => ?_) _ _).trans ?_
  · cases hp : p c <;> cases hbridge : c.isUdpBridge <;> simp [EdgeMap.mem_insert]
  · refine or_congr_left ⟨?_, ?_⟩
    · rintro ⟨c, hc, hn, h⟩
      exact ⟨hn, c, hc, h⟩
    · rintro ⟨hn, c, hc, h⟩
      exact ⟨c, hc, hn, h⟩

theorem mem_collectInternalEdgesFrom {pubName : String} :
    n ∈ collectInternalEdgesFrom components id edges mname pubName (src, dst) ↔
      (n = mname ∧ src = dotId pubName ∧ SubscriberAt components id false dst) ∨
        n ∈ edges (src, dst) := by
  rw [collectInternalEdgesFrom, mem_foldl_insert]
  refine or_congr_left (and_congr_right fun _ => ⟨?_, ?_⟩)
  · rintro ⟨c, hc, hbridge, hsub, hkey⟩
    rw [Prod.mk.injEq] at hkey
    exact ⟨hkey.1, c, hc, hbridge, componentSubscribes_iff.1 hsub, hkey.2.symm⟩
  · rintro ⟨rfl, c, hc, hbridge, hsub, rfl⟩
    exact ⟨c, hc, hbridge, componentSubscribes_iff.2 hsub, rfl⟩

/-- The edges from the bridge are those from a publisher of that name. -/
theorem mem_collectInboundEdges :
    n ∈ collectInboundEdges components id edges mname (src, dst) ↔
      (n = mname ∧ src = dotId "UdpBridge" ∧ SubscriberAt components id false dst) ∨
        n ∈ edges (src, dst) :=
  mem_collectInternalEdgesFrom

theorem mem_collectOutboundEdges :
    n ∈ collectOutboundEdges components id edges mname (src, dst) ↔
      (n = mname ∧ dst = dotId "UdpBridge" ∧ PublisherAt components id false src) ∨
        n ∈ edges (src, dst) := by
  rw [collectOutboundEdges, mem_foldl_insert]
  refine or_congr_left (and_congr_right fun _ => ⟨?_, ?_⟩)
  · rintro ⟨c, hc, hbridge, hpub, hkey⟩
    rw [Prod.mk.injEq] at hkey
    exact ⟨hkey.2, c, hc, hbridge, componentPublishes_iff.1 hpub, hkey.1.symm⟩
  · rintro ⟨rfl, c, hc, hbridge, hpub, rfl⟩
    exact ⟨c, hc, hbridge, componentPublishes_iff.2 hpub, rfl⟩

theorem mem_collectInternalEdges :
    n ∈ collectInternalEdges components id edges mname (src, dst) ↔
      (n = mname ∧ PublisherAt components id false src ∧ SubscriberAt components id false dst) ∨
        n ∈ edges (src, dst) := by
  refine (foldl_adds (P := fun edges : EdgeMap => n ∈ edges (src, dst)) (Q := fun c => n = mname ∧
    c.isUdpBridge = false ∧ id ∈ c.publishes ∧ src = dotId c.name ∧
      SubscriberAt components id false dst) (fun edges c => ?_) _ _).trans ?_
  · rw [← componentPublishes_iff]
    cases hp : componentPublishes id c <;> cases hbridge : c.isUdpBridge <;>
      simp [mem_collectInternalEdgesFrom]
  · refine or_congr_left ⟨?_, ?_⟩
    · rintro ⟨c, hc, hn, hbridge, hpub, rfl, hsub⟩
      exact ⟨hn, ⟨c, hc, hbridge, hpub, rfl⟩, hsub⟩
    · rintro ⟨hn, ⟨c, hc, hbridge, hpub, rfl⟩, hsub⟩
      exact ⟨c, hc, hn, hbridge, hpub, rfl, hsub⟩

end

theorem othersPublish_iff : OthersPublish components id ↔
    ∃ node, PublisherAt components id false node :=
  ⟨fun ⟨c, hc, hbridge, hpub⟩ => ⟨_, c, hc, hbridge, hpub, rfl⟩,
    fun ⟨_, c, hc, hbridge, hpub, _⟩ => ⟨c, hc, hbridge, hpub⟩⟩

theorem othersSubscribe_iff : OthersSubscribe components id ↔
    ∃ node, SubscriberAt components id false node :=
  ⟨fun ⟨c, hc, hbridge, hsub⟩ => ⟨_, c, hc, hbridge, hsub, rfl⟩,
    fun ⟨_, c, hc, hbridge, hsub, _⟩ => ⟨c, hc, hbridge, hsub⟩⟩

section

variable {d : Diagram} {n src dst : String}

/-- The edges one message adds. -/
theorem mem_edges_collectMsgEdges : n ∈ (collectMsgEdges components id d).edges (src, dst) ↔
    (n = id.name ∧ Draws components id src dst) ∨ n ∈ d.edges (src, dst) := by
  have hpub : internalCxxPublishes components id = false →
      ¬PublisherAt components id false src := by
    intro h hat
    rw [internalCxxPublishes_iff.2 (othersPublish_iff.2 ⟨src, hat⟩)] at h
    exact absurd h (by decide)
  have hsub :
      internalCxxSubscribes components id = false → ¬SubscriberAt components id false dst := by
    intro h hat
    rw [internalCxxSubscribes_iff.2 (othersSubscribe_iff.2 ⟨dst, hat⟩)] at h
    exact absurd h (by decide)
  unfold collectMsgEdges Draws direction
  cases pyPublishes components id <;> cases pySubscribes components id <;>
    cases hp : internalCxxPublishes components id <;>
    cases hs : internalCxxSubscribes components id <;>
    simp [mem_collectInboundEdges, mem_collectOutboundEdges, mem_collectInternalEdges, hpub, hsub,
      hp, hs]
  all_goals tauto

theorem mem_inbound_collectMsgEdges : n ∈ (collectMsgEdges components id d).inboundMsgNames ↔
    (n = id.name ∧ (direction components id = .inbound ∨
      direction components id = .bidirectional)) ∨ n ∈ d.inboundMsgNames := by
  unfold collectMsgEdges direction
  cases pyPublishes components id <;> cases pySubscribes components id <;>
    cases internalCxxPublishes components id <;> cases internalCxxSubscribes components id <;>
    simp

theorem mem_outbound_collectMsgEdges : n ∈ (collectMsgEdges components id d).outboundMsgNames ↔
    (n = id.name ∧ (direction components id = .outbound ∨
      direction components id = .bidirectional)) ∨ n ∈ d.outboundMsgNames := by
  unfold collectMsgEdges direction
  cases pyPublishes components id <;> cases pySubscribes components id <;>
    cases internalCxxPublishes components id <;> cases internalCxxSubscribes components id <;>
    simp

/-! ## All messages -/

/-- What each message adds for itself is what all of them add for it. -/
theorem mem_collectEdges {g : Diagram → Finset String} {Q : MsgId → Prop} (hinit : g {} = ∅)
    (h : ∀ d id', id.name ∈ g (collectMsgEdges components id' d) ↔
      (id.name = id'.name ∧ Q id') ∨ id.name ∈ g d) :
    id.name ∈ g (collectEdges components) ↔ Q id := by
  refine (foldl_adds (P := fun d => id.name ∈ g d) h _ _).trans ⟨?_, fun hid => ?_⟩
  · rintro (⟨id', -, hname, hid⟩ | hold)
    · exact MsgId.name_injective hname ▸ hid
    · rw [hinit] at hold
      exact absurd hold (Finset.notMem_empty _)
  · exact .inl ⟨id, id.mem_all, rfl, hid⟩

theorem mem_edges_collectEdges :
    id.name ∈ (collectEdges components).edges (src, dst) ↔ Draws components id src dst :=
  mem_collectEdges (g := fun d => d.edges (src, dst)) rfl fun _ _ => mem_edges_collectMsgEdges

theorem mem_inbound_collectEdges : id.name ∈ (collectEdges components).inboundMsgNames ↔
    direction components id = .inbound ∨ direction components id = .bidirectional :=
  mem_collectEdges (g := Diagram.inboundMsgNames) rfl fun _ _ => mem_inbound_collectMsgEdges

theorem mem_outbound_collectEdges : id.name ∈ (collectEdges components).outboundMsgNames ↔
    direction components id = .outbound ∨ direction components id = .bidirectional :=
  mem_collectEdges (g := Diagram.outboundMsgNames) rfl fun _ _ => mem_outbound_collectMsgEdges

end

/-! ## When the diagram is right -/

theorem publisherAt_bridge {node : String} : PublisherAt components id true node ↔
    BridgePublishes components id ∧ node = dotId "UdpBridge" := by
  constructor
  · rintro ⟨c, hc, hbridge, hpub, rfl⟩
    exact ⟨⟨c, hc, hbridge, hpub⟩, by rw [c.named hbridge]⟩
  · rintro ⟨⟨c, hc, hbridge, hpub⟩, rfl⟩
    exact ⟨c, hc, hbridge, hpub, by rw [c.named hbridge]⟩

theorem subscriberAt_bridge {node : String} : SubscriberAt components id true node ↔
    BridgeSubscribes components id ∧ node = dotId "UdpBridge" := by
  constructor
  · rintro ⟨c, hc, hbridge, hsub, rfl⟩
    exact ⟨⟨c, hc, hbridge, hsub⟩, by rw [c.named hbridge]⟩
  · rintro ⟨⟨c, hc, hbridge, hsub⟩, rfl⟩
    exact ⟨c, hc, hbridge, hsub, by rw [c.named hbridge]⟩

theorem linked_of_mem {a b : Component} (ha : a ∈ components) (hb : b ∈ components)
    (hpub : id ∈ a.publishes) (hsub : id ∈ b.subscribes) :
    Linked components id (dotId a.name) (dotId b.name) :=
  ⟨⟨_, a, ha, rfl, hpub, rfl⟩, ⟨_, b, hb, rfl, hsub, rfl⟩⟩

/-- The edges are right when they are right between nodes and the nodes keep apart what differs. -/
theorem draws_iff :
    (∀ a ∈ components, ∀ b ∈ components, Draws components id (dotId a.name) (dotId b.name) ↔
      id ∈ a.publishes ∧ id ∈ b.subscribes) ↔
    Separates components id ∧ ∀ a ∈ components, ∀ b ∈ components,
      (Draws components id (dotId a.name) (dotId b.name) ↔
        Linked components id (dotId a.name) (dotId b.name)) := by
  constructor
  · intro h
    refine ⟨?_, fun a ha b hb => ⟨fun hdraws => ?_, ?_⟩⟩
    · intro a ha b hb a' ha' b' hb' haa hbb hpub hsub
      have hdraws := (h a ha b hb).2 ⟨hpub, hsub⟩
      rw [haa, hbb] at hdraws
      exact (h a' ha' b' hb').1 hdraws
    · obtain ⟨hpub, hsub⟩ := (h a ha b hb).1 hdraws
      exact linked_of_mem ha hb hpub hsub
    · rintro ⟨⟨_, a', ha', -, hpub, haa⟩, ⟨_, b', hb', -, hsub, hbb⟩⟩
      rw [← haa, ← hbb]
      exact (h a' ha' b' hb').2 ⟨hpub, hsub⟩
  · rintro ⟨hseparates, h⟩ a ha b hb
    rw [h a ha b hb]
    constructor
    · rintro ⟨⟨_, a', ha', -, hpub, haa⟩, ⟨_, b', hb', -, hsub, hbb⟩⟩
      exact hseparates a' ha' b' hb' a ha b hb haa hbb hpub hsub
    · rintro ⟨hpub, hsub⟩
      exact linked_of_mem ha hb hpub hsub

theorem linked_iff {src dst : String} : Linked components id src dst ↔
    (PublisherAt components id false src ∨
      BridgePublishes components id ∧ src = dotId "UdpBridge") ∧
    (SubscriberAt components id false dst ∨
      BridgeSubscribes components id ∧ dst = dotId "UdpBridge") := by
  simp [Linked, publisherAt_bridge, subscriberAt_bridge]

/-- The traffic of the bridge is listed right when the message does not touch the bridge, or passes
    it in one direction with nothing else on the near side, or in both. -/
theorem listed_iff :
    ((direction components id = .inbound ∨ direction components id = .bidirectional ↔
        BridgePublishes components id) ∧
      (direction components id = .outbound ∨ direction components id = .bidirectional ↔
        BridgeSubscribes components id)) ↔
    (¬BridgePublishes components id ∧ ¬BridgeSubscribes components id) ∨
    (BridgePublishes components id ∧ ¬BridgeSubscribes components id ∧
      OthersSubscribe components id ∧ ¬OthersPublish components id) ∨
    (BridgeSubscribes components id ∧ ¬BridgePublishes components id ∧
      OthersPublish components id ∧ ¬OthersSubscribe components id) ∨
    (BridgePublishes components id ∧ BridgeSubscribes components id ∧
      (OthersPublish components id ∨ OthersSubscribe components id)) := by
  rw [← pyPublishes_iff, ← pySubscribes_iff, ← internalCxxPublishes_iff,
    ← internalCxxSubscribes_iff, direction]
  cases pyPublishes components id <;> cases pySubscribes components id <;>
    cases internalCxxPublishes components id <;> cases internalCxxSubscribes components id <;>
    decide

theorem direction_internal (hpub : ¬BridgePublishes components id)
    (hsub : ¬BridgeSubscribes components id) : direction components id = .internal := by
  rw [← pyPublishes_iff, Bool.not_eq_true] at hpub
  rw [← pySubscribes_iff, Bool.not_eq_true] at hsub
  simp [direction, hpub, hsub]

theorem direction_inbound (hpub : BridgePublishes components id)
    (hsub : ¬BridgeSubscribes components id) (hothersSub : OthersSubscribe components id)
    (hothersPub : ¬OthersPublish components id) : direction components id = .inbound := by
  rw [← pySubscribes_iff, Bool.not_eq_true] at hsub
  rw [← internalCxxPublishes_iff, Bool.not_eq_true] at hothersPub
  simp [direction, pyPublishes_iff.2 hpub, hsub, internalCxxSubscribes_iff.2 hothersSub, hothersPub]

theorem direction_outbound (hsub : BridgeSubscribes components id)
    (hpub : ¬BridgePublishes components id) (hothersPub : OthersPublish components id)
    (hothersSub : ¬OthersSubscribe components id) : direction components id = .outbound := by
  rw [← pyPublishes_iff, Bool.not_eq_true] at hpub
  rw [← internalCxxSubscribes_iff, Bool.not_eq_true] at hothersSub
  simp [direction, pySubscribes_iff.2 hsub, hpub, internalCxxPublishes_iff.2 hothersPub, hothersSub]

theorem direction_bidirectional (hpub : BridgePublishes components id)
    (hsub : BridgeSubscribes components id)
    (hothers : OthersPublish components id ∨ OthersSubscribe components id) :
    direction components id = .bidirectional := by
  rw [← internalCxxPublishes_iff, ← internalCxxSubscribes_iff] at hothers
  rcases hothers with h | h <;>
    simp [direction, pyPublishes_iff.2 hpub, pySubscribes_iff.2 hsub, h]

/-- If the edges of a message that passes the bridge in both directions are right, another component
    shares the node of the bridge. -/
theorem sharesBridge_of_draws (hpub : BridgePublishes components id)
    (hsub : BridgeSubscribes components id)
    (hothers : OthersPublish components id ∨ OthersSubscribe components id)
    (h : ∀ a ∈ components, ∀ b ∈ components, (Draws components id (dotId a.name) (dotId b.name) ↔
      Linked components id (dotId a.name) (dotId b.name))) : SharesBridge components id := by
  simp only [Draws, direction_bidirectional hpub hsub hothers, linked_iff] at h
  refine ⟨?_, ?_⟩
  · -- the bridge itself is both ends of an edge
    have hexists := hpub
    obtain ⟨c, hc, hbridge, -⟩ := hexists
    have hself := h c hc c hc
    rw [c.named hbridge] at hself
    replace hself := hself.2 ⟨.inr ⟨hpub, rfl⟩, .inr ⟨hsub, rfl⟩⟩
    rcases hself with ⟨-, d, hd, hother, hdsub, hnode⟩ | ⟨-, d, hd, hother, hdpub, hnode⟩
    · exact ⟨d, hd, hother, hnode, .inr hdsub⟩
    · exact ⟨d, hd, hother, hnode, .inl hdpub⟩
  · by_contra hnone
    simp only [not_or, not_forall] at hnone
    obtain ⟨⟨a, ha, hapub, hanode⟩, ⟨b, hb, hbsub, hbnode⟩⟩ := hnone
    have hlinked := linked_iff.1 (linked_of_mem ha hb hapub hbsub)
    rcases (h a ha b hb).2 hlinked with ⟨hnode, -⟩ | ⟨hnode, -⟩
    · exact hanode hnode
    · exact hbnode hnode

/-- If one does, they are right. -/
theorem draws_of_sharesBridge (hpub : BridgePublishes components id)
    (hsub : BridgeSubscribes components id)
    (hothers : OthersPublish components id ∨ OthersSubscribe components id)
    (h : SharesBridge components id) {a b : Component} :
    Draws components id (dotId a.name) (dotId b.name) ↔
      Linked components id (dotId a.name) (dotId b.name) := by
  obtain ⟨⟨c, hc, hother, hcnode, hcase⟩, hall⟩ := h
  simp only [Draws, direction_bidirectional hpub hsub hothers, linked_iff]
  constructor
  · rintro (⟨hnode, hat⟩ | ⟨hnode, hat⟩)
    · exact ⟨.inr ⟨hpub, hnode⟩, .inl hat⟩
    · exact ⟨.inl hat, .inr ⟨hsub, hnode⟩⟩
  · rintro ⟨hsrc, hdst⟩
    -- an edge with both ends at the node of the bridge is drawn for the other component there
    have hloop : PublisherAt components id false (dotId "UdpBridge") ∨
        SubscriberAt components id false (dotId "UdpBridge") :=
      hcase.imp (fun h => ⟨c, hc, hother, h, hcnode⟩) fun h => ⟨c, hc, hother, h, hcnode⟩
    rcases hall with hall | hall
    · have hnode : dotId a.name = dotId "UdpBridge" := by
        rcases hsrc with ⟨c', hc', -, hpub', hnode'⟩ | ⟨-, hnode'⟩
        · rw [← hnode', hall c' hc' hpub']
        · exact hnode'
      rcases hdst with hat | ⟨-, hnode'⟩
      · exact .inl ⟨hnode, hat⟩
      · rw [hnode, hnode']
        exact hloop.symm.imp (⟨rfl, ·⟩) (⟨rfl, ·⟩)
    · have hnode : dotId b.name = dotId "UdpBridge" := by
        rcases hdst with ⟨c', hc', -, hsub', hnode'⟩ | ⟨-, hnode'⟩
        · rw [← hnode', hall c' hc' hsub']
        · exact hnode'
      rcases hsrc with hat | ⟨-, hnode'⟩
      · exact .inr ⟨hnode, hat⟩
      · rw [hnode, hnode']
        exact hloop.symm.imp (⟨rfl, ·⟩) (⟨rfl, ·⟩)

/-- The edges of a message whose traffic is listed right. -/
theorem drawable_iff :
    (((direction components id = .inbound ∨ direction components id = .bidirectional ↔
        BridgePublishes components id) ∧
      (direction components id = .outbound ∨ direction components id = .bidirectional ↔
        BridgeSubscribes components id)) ∧
      ∀ a ∈ components, ∀ b ∈ components, (Draws components id (dotId a.name) (dotId b.name) ↔
        Linked components id (dotId a.name) (dotId b.name))) ↔ Drawable components id := by
  rw [listed_iff]
  have hnoPub (h : ¬OthersPublish components id) (node : String) :
      ¬PublisherAt components id false node :=
    fun hat => h (othersPublish_iff.2 ⟨node, hat⟩)
  have hnoSub (h : ¬OthersSubscribe components id) (node : String) :
      ¬SubscriberAt components id false node :=
    fun hat => h (othersSubscribe_iff.2 ⟨node, hat⟩)
  constructor
  · rintro ⟨h | h | h | ⟨hpub, hsub, hothers⟩, hdraws⟩
    · exact .inl h
    · exact .inr (.inl h)
    · exact .inr (.inr (.inl h))
    · exact .inr (.inr (.inr ⟨hpub, hsub, sharesBridge_of_draws hpub hsub hothers hdraws⟩))
  · rintro (⟨hpub, hsub⟩ | ⟨hpub, hsub, hothersSub, hothersPub⟩ |
      ⟨hsub, hpub, hothersPub, hothersSub⟩ | ⟨hpub, hsub, hshares⟩)
    · refine ⟨.inl ⟨hpub, hsub⟩, fun a _ b _ => ?_⟩
      simp [Draws, direction_internal hpub hsub, linked_iff, hpub, hsub]
    · refine ⟨.inr (.inl ⟨hpub, hsub, hothersSub, hothersPub⟩), fun a _ b _ => ?_⟩
      simp [Draws, direction_inbound hpub hsub hothersSub hothersPub, linked_iff, hpub, hsub,
        hnoPub hothersPub]
    · refine ⟨.inr (.inr (.inl ⟨hsub, hpub, hothersPub, hothersSub⟩)), fun a _ b _ => ?_⟩
      simp [Draws, direction_outbound hsub hpub hothersPub hothersSub, linked_iff, hpub, hsub,
        hnoSub hothersSub, and_comm]
    · obtain ⟨c, hc, hother, -, hcase⟩ := hshares.1
      have hothers : OthersPublish components id ∨ OthersSubscribe components id :=
        hcase.imp (fun h => ⟨c, hc, hother, h⟩) fun h => ⟨c, hc, hother, h⟩
      exact ⟨.inr (.inr (.inr ⟨hpub, hsub, hothers⟩)),
        fun _ _ _ _ => draws_of_sharesBridge hpub hsub hothers hshares⟩

/-- **The diagram is right for the message exactly when** it is drawable, and components with one
    node exchange it alike. -/
theorem faithful_iff :
    Faithful components id ↔ Drawable components id ∧ Separates components id := by
  rw [← drawable_iff]
  constructor
  · rintro ⟨hedges, hinbound, houtbound, -⟩
    simp only [mem_edges_collectEdges] at hedges
    rw [mem_inbound_collectEdges] at hinbound
    rw [mem_outbound_collectEdges] at houtbound
    obtain ⟨hseparates, hdraws⟩ := draws_iff.1 hedges
    exact ⟨⟨⟨hinbound, houtbound⟩, hdraws⟩, hseparates⟩
  · rintro ⟨⟨⟨hinbound, houtbound⟩, hdraws⟩, hseparates⟩
    have hedges := draws_iff.2 ⟨hseparates, hdraws⟩
    refine ⟨?_, mem_inbound_collectEdges.trans hinbound, mem_outbound_collectEdges.trans houtbound,
      fun h => ⟨hinbound.1 (.inr h), houtbound.1 (.inr h)⟩⟩
    simpa only [mem_edges_collectEdges] using hedges

end

/-! ## AppServices -/

/-- The name of a service class. -/
def Service.typeName : Service → String
  | .motor => "MotorService"
  | .kinematics => "KinematicsService"
  | .power => "PowerService"
  | .state => "StateService"
  | .thermal => "ThermalService"
  | .environment => "EnvironmentService"
  | .autonomous => "AutonomousService"
  | .log => "LogService"
  | .udpBridge => "UdpBridge"

def Service.component (s : Service) : Component where
  isUdpBridge := s = .udpBridge
  name := s.typeName
  subscribes := s.subscribes
  publishes := s.publishes
  named := by cases s <;> decide

/-- The components `generate_docs` runs on. -/
def appComponents : List Component := Service.all.map Service.component

/-- `KinematicsData` goes from `KinematicsService` to `AutonomousService` and out through the
    bridge. It is listed as inbound and shown as bidirectional. -/
theorem kinematicsData_not_faithful : (∃ c ∈ appComponents, c.isUdpBridge = true) ∧
    ¬Faithful appComponents .kinematicsData := by
  refine ⟨by decide, fun h => ?_⟩
  have hlisted : MsgId.kinematicsData.name ∈ (collectEdges appComponents).inboundMsgNames := by
    decide
  obtain ⟨c, hc, hbridge, hpub⟩ := h.inbound.1 hlisted
  revert c
  decide

end ReflectPytest
