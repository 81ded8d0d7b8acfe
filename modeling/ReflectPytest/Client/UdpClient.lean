import ReflectPytest.Library.Mailbox
import ReflectPytest.Wire.Lengths

set_option autoImplicit false

/-! # UdpClient

`recv_msg` of the Python test client on a socket. It looks for a message in `_queue` first; what it
then receives it returns, puts into `_queue`, or skips. Taken together that is a selective receive
from a mailbox (`recvMsg_takes`), so `run_delivers` follows from the mailbox's rules. -/

namespace ReflectPytest

open PyStruct LittleEndian Mailbox

/-- `PAYLOAD_SIZE_BY_ID`. -/
def payloadSizeById : MsgId → Option Nat
  | .log => some 288 | .physicsTick => some 12 | .stateRequest => some 1 | .stateData => some 1
  | .motorSequence => some 48 | .motorStatus => some 8
  | .kinematicsRequest => some 1 | .kinematicsData => some 16
  | .powerRequest => some 1 | .powerData => some 16
  | .thermalRequest => some 1 | .thermalData => some 8
  | .environmentAck => some 4 | .environmentRequest => some 8 | .environmentData => some 36
  | .autoDriveCommand => some 180 | .autoDriveStatus => some 156
  | .internalEnvRequest => some 8 | .internalEnvData => some 16

theorem payloadSizeById_eq (id : MsgId) : payloadSizeById id = some (messageById id).wireSize := by
  cases id <;> rfl

namespace UdpClient

/-- An entry of `_queue`: `(msg_enum, payload_obj)`. -/
abbrev Message : Type := MsgId × PyVal

end UdpClient

open UdpClient in
/-- The timeout of `_sock`, in seconds, and `_queue`. -/
structure UdpClient where
  timeout : ℚ
  queue : List Message

namespace UdpClient

/-- What `recvfrom` comes back with. -/
inductive Arrival where
  | datagram (data : List UInt8)
  | timeout

/-- How a call ends: it returns a payload object, of the message that it prints, or raises
    `TimeoutError`, or is still waiting. -/
inductive Outcome where
  | returned (m : Message)
  | timeoutError
  | waiting

/-- The client after a call, how the call ended, and what it has left in the socket. -/
structure Result where
  client : UdpClient
  outcome : Outcome
  stream : List Arrival

/-- `__init__`. -/
def init : UdpClient := ⟨1 / 10000, []⟩

/-! ## recv_msg -/

/-- The scan of `_queue` for an identifier. -/
def popExpected (expectedId : MsgId) : List Message → Option (Message × List Message)
  | [] => none
  | m :: rest =>
      if m.1 = expectedId then some (m, rest)
      else (popExpected expectedId rest).map fun x => (x.1, m :: x.2)

/-- Check queue first. -/
def checkQueue (queue : List Message) : Option MsgId → Option (Message × List Message)
  | some expectedId => popExpected expectedId queue
  | none =>
      match queue with
      | [] => none
      | m :: rest => some (m, rest)

/-- `MsgId(msg_id)`. -/
def msgEnum (msgId : Nat) : Option MsgId := MsgId.all.find? fun id => decide (id.value = msgId)

/-- The message in a datagram, or `none` where the loop continues; a `struct.error` does, too. -/
def unpackMessage (data : List UInt8) : Option Message :=
  if data.length < 2 then none
  else (msgEnum (value (data.take 2))).bind fun id =>
    (payloadSizeById id).bind fun expectedSize =>
      if data.length - 2 ≠ expectedSize then none
      else (generated.unpackWire 3 (messageById id).name (data.drop 2)).map fun obj => (id, obj)

/-- Receive from network: the loop, on what comes out of the socket. -/
def receive (expectedId : Option MsgId) : UdpClient → List Arrival → Result
  | c, [] => ⟨c, .waiting, []⟩
  | c, .timeout :: stream => ⟨c, .timeoutError, stream⟩
  | c, .datagram data :: stream =>
      match unpackMessage (data.take 4096) with
      | none => receive expectedId c stream
      | some m =>
          if expectedId.isSome && decide (some m.1 ≠ expectedId) then
            receive expectedId { c with queue := c.queue ++ [m] } stream
          else ⟨c, .returned m, stream⟩

/-- `finally`. -/
def restoreTimeout (oldTimeout : Option ℚ) (r : Result) : Result :=
  match r.outcome, oldTimeout with
  | .waiting, _ => r
  | _, none => r
  | _, some t => { r with client := { r.client with timeout := t } }

/-- `recv_msg`. -/
def recvMsg (c : UdpClient) (expectedId : Option MsgId) (timeoutUs : Int)
    (stream : List Arrival) : Result :=
  match checkQueue c.queue expectedId with
  | some (m, queue) => ⟨{ c with queue := queue }, .returned m, stream⟩
  | none =>
      if 0 < timeoutUs then
        restoreTimeout (some c.timeout)
          (receive expectedId { c with timeout := timeoutUs / 1000000 } stream)
      else restoreTimeout none (receive expectedId c stream)

/-! ## Sessions -/

/-- The client after some calls, the messages they returned, and what they have left in the
    socket. -/
structure Session where
  client : UdpClient
  returned : List Message
  stream : List Arrival

/-- Call `recv_msg` with these arguments one after another, as long as the calls end. -/
def run (c : UdpClient) (stream : List Arrival) : List (Option MsgId × Int) → Session
  | [] => ⟨c, [], stream⟩
  | (expectedId, timeoutUs) :: calls =>
      let r := c.recvMsg expectedId timeoutUs stream
      match r.outcome with
      | .returned m =>
          let s := run r.client r.stream calls
          { s with returned := m :: s.returned }
      | .timeoutError => run r.client r.stream calls
      | .waiting => ⟨r.client, [], r.stream⟩

/-! ## Well-formed messages -/

/-- A known identifier, and exactly as many bytes as its payload has. -/
structure WellFormed (data : List UInt8) (id : MsgId) : Prop where
  header : 2 ≤ data.length
  known : id.value = value (data.take 2)
  size : (data.drop 2).length = id.payload.size

instance (data : List UInt8) (id : MsgId) : Decidable (WellFormed data id) :=
  decidable_of_iff (2 ≤ data.length ∧ id.value = value (data.take 2) ∧
    (data.drop 2).length = id.payload.size)
    ⟨fun h => ⟨h.1, h.2.1, h.2.2⟩, fun h => ⟨h.header, h.known, h.size⟩⟩

/-- The identifier and the payload of the well-formed message in a datagram. -/
def content (data : List UInt8) : Option (MsgId × List UInt8) :=
  (MsgId.all.find? fun id => decide (WellFormed data id)).map fun id => (id, data.drop 2)

/-- The well-formed messages among what came out of a socket. -/
def wellFormed (arrivals : List Arrival) : List (MsgId × List UInt8) :=
  arrivals.filterMap fun arrival => match arrival with
    | .datagram data => content data
    | .timeout => none

/-- The messages are the well-formed ones, their payloads unpacked. -/
def Unpacked (arrivals : List Arrival) (ms : List Message) : Prop :=
  (wellFormed arrivals).map (fun d => (d.1, generated.unpackWire 3 (messageById d.1).name d.2)) =
    ms.map fun m => (m.1, some m.2)

/-! ## What a call owes -/

/-- The arrival ends the loop of a call: the timeout, or a well-formed message the call is for. -/
def Ends (expectedId : Option MsgId) : Arrival → Prop
  | .datagram data => ∃ d, content data = some d ∧ wants Prod.fst expectedId d = true
  | .timeout => True

/-- A call has read the socket up to the first arrival that ends the loop, and no further: that is
    the message it returns or the timeout for which it raises. Without one it has read all. -/
def ReadsUpTo (expectedId : Option MsgId) (consumed rest : List Arrival) : Outcome → Prop
  | .returned m => ∃ skipped data payload, consumed = skipped ++ [.datagram data] ∧
      (∀ a ∈ skipped, ¬ Ends expectedId a) ∧ content data = some (m.1, payload) ∧
      generated.unpackWire 3 (messageById m.1).name payload = some m.2 ∧
      wants Prod.fst expectedId m = true
  | .timeoutError => ∃ skipped, consumed = skipped ++ [.timeout] ∧
      ∀ a ∈ skipped, ¬ Ends expectedId a
  | .waiting => rest = [] ∧ ∀ a ∈ consumed, ¬ Ends expectedId a

/-- A call for an identifier, or for any: a message that is queued for it is returned without a look
    at the socket, and else the socket is read. What is returned is the first wanted message of the
    queue and of what has been received, and all others stay in the queue. -/
structure Serves (c : UdpClient) (expectedId : Option MsgId) (stream : List Arrival) (r : Result)
    (consumed : List Arrival) (received : List Message) : Prop where
  stream : stream = consumed ++ r.stream
  unpacked : Unpacked consumed received
  queued : (∃ m ∈ c.queue, wants Prod.fst expectedId m = true) →
    consumed = [] ∧ ∃ m, r.outcome = .returned m
  read : (∀ m ∈ c.queue, wants Prod.fst expectedId m = false) →
    ReadsUpTo expectedId consumed r.stream r.outcome
  first : ∀ m, r.outcome = .returned m ↔
    (c.queue ++ received).find? (wants Prod.fst expectedId) = some m
  kept : (∀ m, r.outcome ≠ .returned m) → r.client.queue = c.queue ++ received

/-! ## Datagrams -/

/-- Looking for the only identifier with a property. -/
theorem find?_all_eq_some_iff {P : MsgId → Prop} [DecidablePred P]
    (huniq : ∀ id id', P id → P id' → id = id') {id : MsgId} :
    (MsgId.all.find? fun id => decide (P id)) = some id ↔ P id := by
  constructor
  · exact fun h => by simpa using List.find?_some h
  · intro h
    cases hfind : MsgId.all.find? fun id => decide (P id) with
    | none => exact absurd (decide_eq_true h) (List.find?_eq_none.1 hfind id (MsgId.mem_all id))
    | some id' => rw [huniq id id' h (by simpa using List.find?_some hfind)]

section

variable {data : List UInt8} {id : MsgId}

theorem msgEnum_eq_some_iff {msgId : Nat} : msgEnum msgId = some id ↔ id.value = msgId :=
  find?_all_eq_some_iff fun _ _ h h' => MsgId.value_injective (h.trans h'.symm)

theorem content_eq_some_iff {d : MsgId × List UInt8} :
    content data = some d ↔ WellFormed data d.1 ∧ data.drop 2 = d.2 := by
  have hfind : ∀ id, (MsgId.all.find? fun id => decide (WellFormed data id)) = some id ↔
      WellFormed data id := fun id => find?_all_eq_some_iff fun _ _ h h' =>
    MsgId.value_injective (h.known.trans h'.known.symm)
  simp only [content, Option.map_eq_some_iff, hfind]
  constructor
  · rintro ⟨id, h, rfl⟩
    exact ⟨h, rfl⟩
  · rintro ⟨h, hrest⟩
    exact ⟨d.1, h, Prod.ext rfl hrest⟩

/-- A datagram that does not fit into the buffer is too long for any message. -/
theorem content_take (data : List UInt8) : content (data.take 4096) = content data := by
  by_cases hlen : data.length ≤ 4096
  · rw [List.take_of_length_le hlen]
  · have hshort : ∀ id : MsgId, id.payload.size < 4094 := by
      intro id
      cases id <;> decide
    have hnone : ∀ data : List UInt8, 4096 ≤ data.length → content data = none := by
      intro data hlong
      refine Option.eq_none_iff_forall_ne_some.2 fun d hd => ?_
      have hsize := (content_eq_some_iff.1 hd).1.size
      rw [List.length_drop] at hsize
      have := hshort d.1
      omega
    rw [hnone data (by omega), hnone _ (by rw [List.length_take]; omega)]

/-- **What the loop gets out of a datagram**: the well-formed message in it, if there is one. -/
theorem unpackMessage_eq (data : List UInt8) : unpackMessage data =
    (content data).bind fun d =>
      (generated.unpackWire 3 (messageById d.1).name d.2).map fun obj => (d.1, obj) := by
  cases hcontent : content data with
  | some d =>
      obtain ⟨h, hrest⟩ := content_eq_some_iff.1 hcontent
      have hsize : data.length - 2 = (messageById d.1).wireSize := by
        rw [← List.length_drop, h.size, wireSize_messageById]
      simp [unpackMessage, not_lt.2 h.header, msgEnum_eq_some_iff.2 h.known, payloadSizeById_eq,
        hsize, ← hrest]
  | none =>
      have hnone : ∀ id, ¬ WellFormed data id := by
        intro id h
        have hsome : content data = some (id, data.drop 2) := content_eq_some_iff.2 ⟨h, rfl⟩
        exact absurd (hcontent.symm.trans hsome) (by simp)
      unfold unpackMessage
      split
      · rfl
      · next hheader =>
          cases hid : msgEnum (value (data.take 2)) with
          | none => rfl
          | some id =>
              rw [Option.bind_some, payloadSizeById_eq, Option.bind_some, if_pos]
              · rfl
              · intro hsize
                refine hnone id ⟨not_lt.1 hheader, msgEnum_eq_some_iff.1 hid, ?_⟩
                rw [List.length_drop, hsize, wireSize_messageById]

/-- A well-formed message is never dropped by `unpack_wire`. -/
theorem unpackWire_of_content {d : MsgId × List UInt8} (h : content data = some d) :
    ∃ obj, generated.unpackWire 3 (messageById d.1).name d.2 = some obj := by
  obtain ⟨hformed, hrest⟩ := content_eq_some_iff.1 h
  refine Option.isSome_iff_exists.1 (unpackWire_messageById d.1 ?_)
  rw [← hrest, hformed.size, wireSize_messageById]

end

/-- The messages that come out of a socket. -/
def messages (arrivals : List Arrival) : List Message :=
  arrivals.filterMap fun arrival => match arrival with
    | .datagram data => unpackMessage (data.take 4096)
    | .timeout => none

theorem messages_append (arrivals arrivals' : List Arrival) :
    messages (arrivals ++ arrivals') = messages arrivals ++ messages arrivals' :=
  List.filterMap_append ..

/-- **No well-formed message is skipped, and nothing else is taken for one.** -/
theorem unpacked_messages (arrivals : List Arrival) : Unpacked arrivals (messages arrivals) := by
  induction arrivals with
  | nil => rfl
  | cons arrival arrivals ih =>
      unfold Unpacked at ih ⊢
      cases arrival with
      | timeout => exact ih
      | datagram data =>
          cases hcontent : content data with
          | none =>
              have hskip : unpackMessage (data.take 4096) = none := by
                rw [unpackMessage_eq, content_take, hcontent]
                rfl
              simpa [wellFormed, messages, hcontent, hskip] using ih
          | some d =>
              obtain ⟨obj, hobj⟩ := unpackWire_of_content hcontent
              have hget : unpackMessage (data.take 4096) = some (d.1, obj) := by
                rw [unpackMessage_eq, content_take, hcontent, Option.bind_some, hobj]
                rfl
              simpa [wellFormed, messages, hcontent, hget, hobj] using ih

/-! ## Calls -/

/-- The first of these messages for the identifier is taken, or there is none and all stay. -/
def Takes (expectedId : Option MsgId) (ms : List Message) : Outcome → List Message → Prop
  | .returned m, queue => takeFirst (wants Prod.fst expectedId) ms = some (m, queue)
  | _, queue => takeFirst (wants Prod.fst expectedId) ms = none ∧ queue = ms

theorem popExpected_eq (expectedId : MsgId) (queue : List Message) :
    popExpected expectedId queue = takeFirst (wants Prod.fst (some expectedId)) queue := by
  induction queue with
  | nil => rfl
  | cons m rest ih =>
      unfold popExpected
      by_cases hm : m.1 = expectedId
      · rw [if_pos hm, takeFirst_cons_pos (by simp [wants, hm])]
      · rw [if_neg hm, takeFirst_cons_neg (by simp [wants, hm]), ih]

theorem checkQueue_eq (queue : List Message) (expectedId : Option MsgId) :
    checkQueue queue expectedId = takeFirst (wants Prod.fst expectedId) queue := by
  cases expectedId with
  | some id => exact popExpected_eq id queue
  | none =>
      cases queue with
      | nil => rfl
      | cons m rest => exact (takeFirst_cons_pos rfl rest).symm

/-- The message that the loop gets out of a datagram has the content of the datagram. -/
theorem content_of_unpackMessage {data : List UInt8} {m : Message}
    (h : unpackMessage (data.take 4096) = some m) :
    ∃ payload, content data = some (m.1, payload) ∧
      generated.unpackWire 3 (messageById m.1).name payload = some m.2 := by
  rw [unpackMessage_eq, content_take] at h
  obtain ⟨d, hd, h⟩ := Option.bind_eq_some_iff.1 h
  obtain ⟨obj, hobj, rfl⟩ := Option.map_eq_some_iff.1 h
  exact ⟨d.2, hd, hobj⟩

/-- A datagram that the loop skips or puts into the queue does not end it. -/
theorem not_ends_datagram {expectedId : Option MsgId} {data : List UInt8}
    (h : ∀ m, unpackMessage (data.take 4096) = some m → wants Prod.fst expectedId m = false) :
    ¬ Ends expectedId (.datagram data) := by
  rintro ⟨d, hd, hwants⟩
  obtain ⟨obj, hobj⟩ := unpackWire_of_content hd
  have hm : unpackMessage (data.take 4096) = some (d.1, obj) := by
    rw [unpackMessage_eq, content_take, hd, Option.bind_some, hobj]
    rfl
  have hkey : wants Prod.fst expectedId (d.1, obj) = wants Prod.fst expectedId d := by
    cases expectedId <;> rfl
  exact absurd ((h _ hm).symm.trans (hkey.trans hwants)) Bool.false_ne_true

/-- An arrival that does not end the loop is read over. -/
theorem ReadsUpTo.cons {expectedId : Option MsgId} {consumed rest : List Arrival}
    {outcome : Outcome} (h : ReadsUpTo expectedId consumed rest outcome) {arrival : Arrival}
    (harrival : ¬ Ends expectedId arrival) :
    ReadsUpTo expectedId (arrival :: consumed) rest outcome := by
  have hcons : ∀ skipped : List Arrival, (∀ a ∈ skipped, ¬ Ends expectedId a) →
      ∀ a ∈ arrival :: skipped, ¬ Ends expectedId a := by
    intro skipped hskipped a ha
    rcases List.mem_cons.1 ha with rfl | ha
    · exact harrival
    · exact hskipped a ha
  cases outcome with
  | returned m =>
      obtain ⟨skipped, data, payload, rfl, hskipped, hm⟩ := h
      exact ⟨arrival :: skipped, data, payload, rfl, hcons _ hskipped, hm⟩
  | timeoutError =>
      obtain ⟨skipped, rfl, hskipped⟩ := h
      exact ⟨arrival :: skipped, rfl, hcons _ hskipped⟩
  | waiting => exact ⟨h.1, hcons _ h.2⟩

/-- **The loop**, when the queue has nothing for it. -/
theorem receive_takes {expectedId : Option MsgId} {c : UdpClient}
    (hqueue : takeFirst (wants Prod.fst expectedId) c.queue = none) (stream : List Arrival) :
    let r := receive expectedId c stream
    ∃ consumed, stream = consumed ++ r.stream ∧
      Takes expectedId (c.queue ++ messages consumed) r.outcome r.client.queue ∧
      ReadsUpTo expectedId consumed r.stream r.outcome := by
  induction stream generalizing c with
  | nil =>
      have hnothing : c.queue ++ messages [] = c.queue := List.append_nil _
      exact ⟨[], rfl, ⟨by rwa [hnothing], hnothing.symm⟩, rfl,
        fun a ha => absurd ha List.not_mem_nil⟩
  | cons arrival stream ih =>
      have hnothing : c.queue ++ messages [.timeout] = c.queue := List.append_nil _
      cases arrival with
      | timeout =>
          exact ⟨[.timeout], rfl, ⟨by rwa [hnothing], hnothing.symm⟩, [], rfl,
            fun a ha => absurd ha List.not_mem_nil⟩
      | datagram data =>
          simp only [receive]
          cases hm : unpackMessage (data.take 4096) with
          | none =>
              obtain ⟨consumed, hstream, htakes, hreads⟩ := ih hqueue
              refine ⟨.datagram data :: consumed, congrArg (_ :: ·) hstream, ?_,
                hreads.cons (not_ends_datagram fun m h => absurd (hm.symm.trans h) (by simp))⟩
              simpa [messages, hm] using htakes
          | some m =>
              dsimp only
              cases hwants : wants Prod.fst expectedId m with
              | true =>
                  have hreturn : (expectedId.isSome && decide (some m.1 ≠ expectedId)) = false := by
                    cases expectedId <;> simp_all [wants]
                  rw [hreturn]
                  obtain ⟨payload, hcontent, hunpack⟩ := content_of_unpackMessage hm
                  refine ⟨[.datagram data], rfl, ?_, [], data, payload, rfl,
                    fun a ha => absurd ha List.not_mem_nil, hcontent, hunpack, hwants⟩
                  have hone : messages [.datagram data] = [m] := by simp [messages, hm]
                  simp [Takes, hone, takeFirst_append_of_none hqueue, takeFirst_cons_pos hwants]
              | false =>
                  have hstash : (expectedId.isSome && decide (some m.1 ≠ expectedId)) = true := by
                    cases expectedId <;> simp_all [wants]
                  rw [hstash]
                  have hqueue' : takeFirst (wants Prod.fst expectedId) (c.queue ++ [m]) = none := by
                    rw [takeFirst_append_of_none hqueue, takeFirst_cons_neg hwants]
                    rfl
                  obtain ⟨consumed, hstream, htakes, hreads⟩ :=
                    ih (c := { c with queue := c.queue ++ [m] }) hqueue'
                  refine ⟨.datagram data :: consumed, congrArg (_ :: ·) hstream, ?_,
                    hreads.cons (not_ends_datagram fun m' h => ?_)⟩
                  · simpa [messages, hm] using htakes
                  · obtain rfl := Option.some.inj (hm.symm.trans h)
                    exact hwants

theorem restoreTimeout_none (r : Result) : restoreTimeout none r = r := by
  obtain ⟨c, outcome, stream⟩ := r
  cases outcome <;> rfl

theorem restoreTimeout_some (t : ℚ) (r : Result) :
    (restoreTimeout (some t) r).outcome = r.outcome ∧
      (restoreTimeout (some t) r).stream = r.stream ∧
      (restoreTimeout (some t) r).client.queue = r.client.queue ∧
      (r.outcome ≠ .waiting → (restoreTimeout (some t) r).client.timeout = t) := by
  obtain ⟨c, outcome, stream⟩ := r
  cases outcome with
  | waiting => exact ⟨rfl, rfl, rfl, fun h => absurd rfl h⟩
  | _ => exact ⟨rfl, rfl, rfl, fun _ => rfl⟩

/-- **A call is a receive**: of the messages in the queue and those received during the call, it
    returns the first one it is for, or none and they all stay in the queue. -/
theorem recvMsg_takes (c : UdpClient) (expectedId : Option MsgId) (timeoutUs : Int)
    (stream : List Arrival) :
    let r := c.recvMsg expectedId timeoutUs stream
    ∃ consumed, stream = consumed ++ r.stream ∧
      Takes expectedId (c.queue ++ messages consumed) r.outcome r.client.queue ∧
      ((takeFirst (wants Prod.fst expectedId) c.queue).isSome = true → consumed = []) ∧
      (takeFirst (wants Prod.fst expectedId) c.queue = none →
        ReadsUpTo expectedId consumed r.stream r.outcome) := by
  unfold recvMsg
  rw [checkQueue_eq]
  cases hqueue : takeFirst (wants Prod.fst expectedId) c.queue with
  | some x =>
      refine ⟨[], rfl, ?_, fun _ => rfl, fun h => absurd h (Option.some_ne_none x)⟩
      rwa [Takes, messages, List.filterMap_nil, List.append_nil]
  | none =>
      dsimp only
      split
      · obtain ⟨houtcome, hstream, hclient, -⟩ := restoreTimeout_some c.timeout
          (receive expectedId { c with timeout := timeoutUs / 1000000 } stream)
        rw [houtcome, hstream, hclient]
        obtain ⟨consumed, hconsumed, htakes, hreads⟩ :=
          receive_takes (c := { c with timeout := timeoutUs / 1000000 }) hqueue stream
        exact ⟨consumed, hconsumed, htakes, fun h => absurd h Bool.false_ne_true, fun _ => hreads⟩
      · rw [restoreTimeout_none]
        obtain ⟨consumed, hconsumed, htakes, hreads⟩ := receive_takes hqueue stream
        exact ⟨consumed, hconsumed, htakes, fun h => absurd h Bool.false_ne_true, fun _ => hreads⟩

/-- **Every call serves.** -/
theorem recvMsg_serves (c : UdpClient) (expectedId : Option MsgId) (timeoutUs : Int)
    (stream : List Arrival) :
    ∃ consumed received, Serves c expectedId stream (c.recvMsg expectedId timeoutUs stream)
      consumed received := by
  obtain ⟨consumed, hstream, htakes, hqueued, hread⟩ := recvMsg_takes c expectedId timeoutUs stream
  refine ⟨consumed, messages consumed, hstream, unpacked_messages consumed, ?_, ?_, ?_, ?_⟩
  · rintro ⟨m, hm, hwants⟩
    have hsome : (takeFirst (wants Prod.fst expectedId) c.queue).isSome = true := by
      rw [Option.isSome_iff_ne_none]
      exact fun h => absurd ((takeFirst_eq_none_iff.1 h m hm).symm.trans hwants) (by simp)
    obtain rfl := hqueued hsome
    obtain ⟨x, hx⟩ := Option.isSome_iff_exists.1 hsome
    refine ⟨rfl, ?_⟩
    have hnothing : c.queue ++ messages [] = c.queue := List.append_nil _
    rw [hnothing] at htakes
    cases houtcome : (c.recvMsg expectedId timeoutUs stream).outcome with
    | returned m => exact ⟨m, rfl⟩
    | _ =>
        rw [houtcome] at htakes
        exact absurd (hx.symm.trans htakes.1) (by simp)
  · exact fun h => hread (takeFirst_eq_none_iff.2 h)
  · intro m
    cases houtcome : (c.recvMsg expectedId timeoutUs stream).outcome with
    | returned m' =>
        rw [houtcome] at htakes
        obtain ⟨m'', hfind, hpair⟩ := Option.map_eq_some_iff.1 htakes
        obtain ⟨rfl, -⟩ := Prod.mk.inj hpair
        rw [hfind, Outcome.returned.injEq, Option.some.injEq]
    | _ =>
        rw [houtcome] at htakes
        have hnone := Option.map_eq_none_iff.1 htakes.1
        rw [hnone]
        simp
  · intro hnone
    cases houtcome : (c.recvMsg expectedId timeoutUs stream).outcome with
    | returned m => exact absurd houtcome (hnone m)
    | _ =>
        rw [houtcome] at htakes
        exact htakes.2

theorem receive_timeout (expectedId : Option MsgId) (c : UdpClient) (stream : List Arrival) :
    (receive expectedId c stream).client.timeout = c.timeout := by
  fun_induction receive expectedId c stream with
  | case1 => rfl
  | case2 => rfl
  | case3 c data stream _ ih => exact ih
  | case4 c data stream m _ _ ih => exact ih
  | case5 => rfl

/-- A call that ends leaves the socket's timeout as it was. -/
theorem recvMsg_timeout (c : UdpClient) (expectedId : Option MsgId) (timeoutUs : Int)
    (stream : List Arrival) (hends : (c.recvMsg expectedId timeoutUs stream).outcome ≠ .waiting) :
    (c.recvMsg expectedId timeoutUs stream).client.timeout = c.timeout := by
  unfold recvMsg at hends ⊢
  split
  · rfl
  · next hqueue =>
      rw [hqueue] at hends
      dsimp only at hends
      split
      · next htimeout =>
          obtain ⟨houtcome, -, -, hrestored⟩ := restoreTimeout_some c.timeout
            (receive expectedId { c with timeout := timeoutUs / 1000000 } stream)
          rw [if_pos htimeout, houtcome] at hends
          exact hrestored hends
      · rw [restoreTimeout_none]
        exact receive_timeout expectedId c stream

/-- The message a call returns. -/
def Outcome.message : Outcome → List Message
  | .returned m => [m]
  | _ => []

/-- **Step lemma.** A call keeps the mailbox in order. -/
theorem Takes.delivers {received returned queue queue' arrived : List Message}
    {expectedId : Option MsgId} {outcome : Outcome}
    (h : Delivers Prod.fst received returned queue)
    (htakes : Takes expectedId (queue ++ arrived) outcome queue') :
    Delivers Prod.fst (received ++ arrived) (returned ++ outcome.message) queue' := by
  cases outcome with
  | returned m => exact (h.arrive arrived).take htakes
  | timeoutError =>
      obtain ⟨-, rfl⟩ := htakes
      simpa [Outcome.message] using h.arrive arrived
  | waiting =>
      obtain ⟨-, rfl⟩ := htakes
      simpa [Outcome.message] using h.arrive arrived

/-- **Run lemma.** So do any number of calls. -/
theorem run_delivers_from (calls : List (Option MsgId × Int)) {received returned : List Message}
    {c : UdpClient} (h : Delivers Prod.fst received returned c.queue) (stream : List Arrival) :
    let s := run c stream calls
    ∃ consumed, stream = consumed ++ s.stream ∧
      Delivers Prod.fst (received ++ messages consumed) (returned ++ s.returned)
        s.client.queue := by
  induction calls generalizing received returned c stream with
  | nil => exact ⟨[], rfl, by simpa [messages, run] using h⟩
  | cons call calls ih =>
      obtain ⟨expectedId, timeoutUs⟩ := call
      obtain ⟨consumed, hstream, htakes, -⟩ := recvMsg_takes c expectedId timeoutUs stream
      have hcall := htakes.delivers h
      simp only [run]
      split
      · next m hm =>
          rw [hm] at hcall
          obtain ⟨consumed', hstream', hrest⟩ :=
            ih hcall (c.recvMsg expectedId timeoutUs stream).stream
          refine ⟨consumed ++ consumed', ?_, ?_⟩
          · rw [List.append_assoc, ← hstream', ← hstream]
          · simpa [messages_append, Outcome.message, List.append_assoc] using hrest
      · next hm =>
          rw [hm] at hcall
          obtain ⟨consumed', hstream', hrest⟩ :=
            ih hcall (c.recvMsg expectedId timeoutUs stream).stream
          refine ⟨consumed ++ consumed', ?_, ?_⟩
          · rw [List.append_assoc, ← hstream', ← hstream]
          · simpa [messages_append, Outcome.message, List.append_assoc] using hrest
      · next hm =>
          rw [hm] at hcall
          exact ⟨consumed, hstream, hcall⟩

/-- **The client loses and reorders nothing**: for whatever comes out of the socket and whatever
    calls are made, what has been received is well-formed messages, all of them; these are the
    returned ones and those in the queue, each once, for each identifier in the order in which they
    came in, and in the queue altogether. Every call then serves, and one for any message returns
    the first of the queue or, if that is empty, the next well-formed one from the socket. -/
theorem run_delivers (stream : List Arrival) (calls : List (Option MsgId × Int)) :
    let s := run init stream calls
    ∃ consumed received, stream = consumed ++ s.stream ∧ Unpacked consumed received ∧
      (s.returned ++ s.client.queue).Perm received ∧
      (∀ id, (s.returned ++ s.client.queue).filter (fun m => decide (m.1 = id)) =
        received.filter fun m => decide (m.1 = id)) ∧
      s.client.queue.Sublist received ∧
      ∀ expectedId timeoutUs,
        let r := s.client.recvMsg expectedId timeoutUs s.stream
        ∃ consumed' received', Serves s.client expectedId s.stream r consumed' received' ∧
          (expectedId = none → ∀ m, r.outcome = .returned m ↔
            (s.client.queue ++ received').head? = some m) := by
  intro s
  obtain ⟨consumed, hstream, hdelivers⟩ :=
    run_delivers_from calls (c := init) (Delivers.nil Prod.fst) stream
  refine ⟨consumed, messages consumed, hstream, unpacked_messages consumed, hdelivers.perm,
    hdelivers.perKey, hdelivers.arrival, fun expectedId timeoutUs => ?_⟩
  obtain ⟨consumed', received', hserves⟩ := recvMsg_serves s.client expectedId timeoutUs s.stream
  refine ⟨consumed', received', hserves, ?_⟩
  rintro rfl m
  have hhead : (s.client.queue ++ received').find? (wants Prod.fst none) =
      (s.client.queue ++ received').head? := by
    cases s.client.queue ++ received' <;> rfl
  rw [hserves.first, hhead]

/-- A request, half a header, and the reply that is waited for. -/
example : (run init [.datagram [2, 0, 0], .datagram [3], .datagram [3, 0, 1], .timeout]
    [(some .stateData, 500), (none, 0), (none, 0)]).returned.map Prod.fst =
      [.stateData, .stateRequest] := by
  decide +kernel

end UdpClient

end ReflectPytest
