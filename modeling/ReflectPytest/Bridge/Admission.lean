import ReflectPytest.App
import ReflectPytest.Wire.Generated

set_option autoImplicit false

/-! # What the bridge lets through

One iteration of `rx_loop`: receive into a fixed buffer, record the sender, and hand what follows
the identifier to `try_publish_raw`, a short-circuiting fold over the identifiers the bridge may
publish. `rxDatagram_admits` says which datagrams are published, for every list of identifiers and
every datagram. What publishing does to the rest of the application is a parameter. -/

namespace ReflectPytest

namespace Bridge

open LittleEndian

/-- An identifier of a `MsgList`, with the size of its payload struct. -/
structure Publishable where
  id : Nat
  size : Nat
  deriving DecidableEq

/-- `kMaxDgram`. -/
def kMaxDgram : Nat := 4096

/-- What `rx_loop` works on: its buffer, the peer once it is valid, and the rest of the
    application. -/
structure Receiver (A W : Type) where
  buf : List UInt8
  peer : Option A
  world : W

variable {A W : Type} (publish : Nat → List UInt8 → W → W)

/-- `try_publish_raw`, with the memory from `data` on: the operands of `||` are evaluated up to the
    first that is true, and publishing is part of an operand. -/
def tryPublishRaw (id : Nat) (data : List UInt8) (size : Nat) : List Publishable → W → Bool × W
  | [], w => (false, w)
  | p :: rest, w =>
      if id = p.id ∧ size = p.size then (true, publish p.id (data.take p.size) w)
      else tryPublishRaw id data size rest w

/-- `recvfrom`: the buffer is overwritten from the front, a longer datagram is cut off. -/
def recvfrom (buf dgram : List UInt8) : List UInt8 × Int :=
  (dgram.take kMaxDgram ++ buf.drop (dgram.take kMaxDgram).length, (dgram.take kMaxDgram).length)

/-- One iteration of `rx_loop` that receives a datagram. -/
def rxDatagram (ids : List Publishable) (r : Receiver A W) (sender : A) (dgram : List UInt8) :
    Receiver A W :=
  let (buf, n) := recvfrom r.buf dgram
  let r := { r with buf := buf, peer := some sender }
  if n < 2 then r
  else
    -- `static_cast<size_t>(n) - sizeof(uint16_t)`
    let size := ((n - 2) % 2 ^ 64).toNat
    { r with world := (tryPublishRaw publish (value (buf.take 2)) (buf.drop 2) size ids r.world).2 }

/-- `rx_loop` over a sequence of datagrams. -/
def rxLoop (ids : List Publishable) (r : Receiver A W) (dgrams : List (A × List UInt8)) :
    Receiver A W :=
  dgrams.foldl (fun r d => rxDatagram publish ids r d.1 d.2) r

/-! ## Admission -/

/-- The datagram carries the identifier `p` and as many bytes after it as the payload of `p` has. -/
structure Admits (ids : List Publishable) (d : List UInt8) (p : Publishable) : Prop where
  mem : p ∈ ids
  header : 2 ≤ d.length
  id : p.id = value (d.take 2)
  size : (d.drop 2).length = p.size

variable {publish}

/-- The fold publishes for the first identifier that matches, and only for it. -/
theorem tryPublishRaw_of_mem {ids : List Publishable} {p : Publishable} (hp : p ∈ ids)
    (data : List UInt8) (w : W) :
    tryPublishRaw publish p.id data p.size ids w = (true, publish p.id (data.take p.size) w) := by
  induction ids with
  | nil => exact absurd hp List.not_mem_nil
  | cons q rest ih =>
      by_cases hq : p.id = q.id ∧ p.size = q.size
      · rw [tryPublishRaw, if_pos hq, hq.1, hq.2]
      · have hrest : p ∈ rest := by
          refine (List.mem_cons.1 hp).resolve_left fun h => hq ?_
          exact h ▸ ⟨rfl, rfl⟩
        rw [tryPublishRaw, if_neg hq]
        exact ih hrest

theorem tryPublishRaw_of_not_mem {ids : List Publishable} {id size : Nat}
    (hids : ∀ p ∈ ids, ¬ (id = p.id ∧ size = p.size)) (data : List UInt8) (w : W) :
    tryPublishRaw publish id data size ids w = (false, w) := by
  induction ids with
  | nil => rfl
  | cons q rest ih =>
      rw [tryPublishRaw, if_neg (hids q List.mem_cons_self)]
      exact ih fun p hp => hids p (List.mem_cons_of_mem _ hp)

/-- The bytes a received datagram leaves at the start of the buffer. -/
theorem rxDatagram_eq (ids : List Publishable) (r : Receiver A W) (sender : A)
    (dgram : List UInt8) :
    let d := dgram.take kMaxDgram
    rxDatagram publish ids r sender dgram =
      { buf := (recvfrom r.buf dgram).1
        peer := some sender
        world := if d.length < 2 then r.world
          else (tryPublishRaw publish (value (d.take 2))
            (d.drop 2 ++ r.buf.drop d.length) (d.drop 2).length ids r.world).2 } := by
  intro d
  have hlen : d.length ≤ kMaxDgram := List.length_take_le _ _
  by_cases hshort : d.length < 2
  · have hn : (recvfrom r.buf dgram).2 < 2 := Int.ofNat_lt.2 hshort
    simp only [rxDatagram, hn, if_true, hshort]
  · have hn : ¬ (recvfrom r.buf dgram).2 < 2 := fun h => hshort (Int.ofNat_lt.1 h)
    have hsize : (((recvfrom r.buf dgram).2 - 2) % 2 ^ 64).toNat = (d.drop 2).length := by
      have hval : (recvfrom r.buf dgram).2 = d.length := rfl
      have hmax : kMaxDgram = 4096 := rfl
      rw [hval, List.length_drop]
      omega
    have hid : (recvfrom r.buf dgram).1.take 2 = d.take 2 :=
      List.take_append_of_le_length (not_lt.1 hshort)
    have hrest : (recvfrom r.buf dgram).1.drop 2 = d.drop 2 ++ r.buf.drop d.length :=
      List.drop_append_of_le_length (not_lt.1 hshort)
    simp only [rxDatagram, hn, hshort, if_false, hsize, hid, hrest]

/-- **The bridge admits exactly the authorised messages**: a datagram with an identifier of the list
    and exactly the bytes of its payload is published once, as it is; any other changes nothing but
    the peer. -/
theorem rxDatagram_admits (publish : Nat → List UInt8 → W → W) (ids : List Publishable)
    (r : Receiver A W) (sender : A) (dgram : List UInt8) :
    let d := dgram.take kMaxDgram
    let r' := rxDatagram publish ids r sender dgram
    r'.peer = some sender ∧
      (∀ p, Admits ids d p → r'.world = publish p.id (d.drop 2) r.world) ∧
      ((∀ p, ¬ Admits ids d p) → r'.world = r.world) := by
  intro d r'
  have hr' : r' = _ := rxDatagram_eq ids r sender dgram
  refine ⟨by rw [hr'], fun p hp => ?_, fun hnone => ?_⟩
  · have hlong : ¬ d.length < 2 := not_lt.2 hp.header
    rw [hr']
    simp only [d, hlong, if_false, ← hp.id, hp.size]
    have hbytes : (d.drop 2 ++ r.buf.drop d.length).take p.size = d.drop 2 := by
      rw [← hp.size]
      exact List.take_left
    rw [tryPublishRaw_of_mem hp.mem, hbytes]
  · rw [hr']
    dsimp only
    split
    · rfl
    · next hlong =>
        rw [tryPublishRaw_of_not_mem]
        intro p hp hmatch
        exact hnone p ⟨hp, not_lt.1 hlong, hmatch.1.symm, hmatch.2⟩

/-! ## Whole runs -/

/-- What a datagram is published as. -/
def admitted (ids : List Publishable) (dgram : List UInt8) : Option (Nat × List UInt8) :=
  let d := dgram.take kMaxDgram
  if d.length < 2 then none
  else (ids.find? fun p => decide (value (d.take 2) = p.id ∧ (d.drop 2).length = p.size)).map
    fun p => (p.id, d.drop 2)

theorem admitted_eq_some_iff {ids : List Publishable} {dgram : List UInt8}
    {m : Nat × List UInt8} :
    admitted ids dgram = some m ↔
      ∃ p, Admits ids (dgram.take kMaxDgram) p ∧ m = (p.id, (dgram.take kMaxDgram).drop 2) := by
  unfold admitted
  dsimp only
  constructor
  · intro h
    split at h
    · exact nomatch h
    · next hlong =>
        obtain ⟨p, hfind, rfl⟩ := Option.map_eq_some_iff.1 h
        have hmatch := List.find?_some hfind
        rw [decide_eq_true_iff] at hmatch
        exact ⟨p, ⟨List.mem_of_find?_eq_some hfind, not_lt.1 hlong, hmatch.1.symm, hmatch.2⟩, rfl⟩
  · rintro ⟨p, hp, rfl⟩
    rw [if_neg (not_lt.2 hp.header)]
    -- The identifier found may be another entry of the list, but it is the same one.
    cases hfind : ids.find? _ with
    | none =>
        refine absurd (List.find?_eq_none.1 hfind p hp.mem) (not_not.2 ?_)
        exact decide_eq_true ⟨hp.id.symm, hp.size⟩
    | some q =>
        have hmatch := List.find?_some hfind
        rw [decide_eq_true_iff] at hmatch
        rw [Option.map_some, ← hmatch.1, hp.id]

/-- **Run lemma**: over a sequence of datagrams the application sees the admitted ones, each once
    and in order. -/
theorem rxLoop_world (publish : Nat → List UInt8 → W → W) (ids : List Publishable)
    (r : Receiver A W) (dgrams : List (A × List UInt8)) :
    (rxLoop publish ids r dgrams).world =
      (dgrams.filterMap fun d => admitted ids d.2).foldl (fun w m => publish m.1 m.2 w)
        r.world := by
  induction dgrams generalizing r with
  | nil => rfl
  | cons d rest ih =>
      obtain ⟨-, hsome, hnone⟩ := rxDatagram_admits publish ids r d.1 d.2
      rw [rxLoop, List.foldl_cons, ← rxLoop, ih]
      cases hd : admitted ids d.2 with
      | none =>
          rw [List.filterMap_cons, hd, hnone]
          intro p hp
          exact nomatch hd.symm.trans (admitted_eq_some_iff.2 ⟨p, hp, rfl⟩)
      | some m =>
          obtain ⟨p, hp, rfl⟩ := admitted_eq_some_iff.1 hd
          rw [List.filterMap_cons, hd, List.foldl_cons, hsome p hp]

/-! ## UdpBridge -/

/-- An enumerator and its `MessageTraits<Id>::Payload`. -/
def publishable (id : MsgId) : Publishable := ⟨id.value, id.payload.size⟩

/-- `UdpBridge::Publishes`. -/
def udpBridgePublishes : List Publishable := Service.udpBridge.publishes.map publishable

theorem value_lt (id : MsgId) : id.value < 256 ^ 2 := by
  cases id <;> decide

theorem size_le (id : MsgId) : 2 + id.payload.size ≤ kMaxDgram := by
  cases id <;> decide

/-- The datagram of a payload object is admitted exactly when the bridge publishes its
    identifier. -/
theorem admitted_forwardToUdp {id : MsgId} {payload : List UInt8}
    (hsize : payload.length = id.payload.size) :
    admitted udpBridgePublishes (forwardToUdp id payload) =
      if id ∈ Service.udpBridge.publishes then some (id.value, payload) else none := by
  have hlen : (forwardToUdp id payload).length ≤ kMaxDgram := by
    rw [forwardToUdp, List.length_append, length_bytesOf, hsize]
    exact size_le id
  have hid : (forwardToUdp id payload).take 2 = bytesOf 2 id.value :=
    List.take_left' (length_bytesOf 2 _)
  have hrest : (forwardToUdp id payload).drop 2 = payload :=
    List.drop_left' (length_bytesOf 2 _)
  have hlong : 2 ≤ (forwardToUdp id payload).length := by
    rw [forwardToUdp, List.length_append, length_bytesOf]
    omega
  rw [← List.take_of_length_le hlen] at hid hrest hlong
  split
  · next hmem =>
      refine admitted_eq_some_iff.2 ⟨publishable id, ⟨?_, hlong, ?_, ?_⟩, ?_⟩
      · exact List.mem_map_of_mem hmem
      · rw [hid, value_bytesOf_of_lt (value_lt id)]
        rfl
      · rw [hrest, hsize]
        rfl
      · rw [hrest]
        rfl
  · next hmem =>
      refine Option.eq_none_iff_forall_ne_some.2 fun m hm => ?_
      obtain ⟨p, hp, -⟩ := admitted_eq_some_iff.1 hm
      obtain ⟨id', hid', rfl⟩ := List.mem_map.1 hp.mem
      have hvalue : id'.value = id.value := by
        rw [← value_bytesOf_of_lt (value_lt id), ← hid]
        exact hp.id
      exact hmem (MsgId.value_injective hvalue ▸ hid')

end Bridge

end ReflectPytest
