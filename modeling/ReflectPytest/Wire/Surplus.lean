import ReflectPytest.Wire.Lengths

set_option autoImplicit false

/-! # How much pack_wire writes

The generated `pack_wire` loops over whatever is in an array member. So an object packs to the size
of its class and a surplus, positive or negative, for every list that has not as many items as the
array has elements (`packWire_counts`). -/

namespace ReflectPytest

open PyStruct

/-! ## Objects -/

/-- The objects that the loop over an array calls: its items, each coerced. -/
def itemsOf (M : PyModule) (subType : TypeName) (v : PyVal) : Option (List PyVal) :=
  v.iter?.bind fun items => items.mapM (M.coerce subType)

namespace Emission

/-- The objects in the value of a member satisfy `B`. -/
def Builds (M : PyModule) (B : PyVal → Prop) (v : PyVal) : Emission → Prop
  | .value _ _ => True
  | .items subType _ _ _ => ∀ xs, itemsOf M subType v = some xs → ∀ x ∈ xs, B x
  | .nested _ _ => B v

/-- The format takes the value, or the objects in it satisfy `P`. -/
def Packs (M : PyModule) (P : PyVal → Prop) (v : PyVal) : Emission → Prop
  | .value item _ => (PyStruct.pack [item] [v]).isSome = true
  | .items subType takesBytes _ _ => (takesBytes = true ∧ ∃ b, v = .bytes b) ∨
      ∃ xs, itemsOf M subType v = some xs ∧ ∀ x ∈ xs, P x
  | .nested _ _ => P v

/-- The bytes a value has too many for its member, with `f` for the objects in it. -/
def surplus (M : PyModule) (f : PyVal → Int) (v : PyVal) : Emission → Int
  | .value _ _ => 0
  | .items subType takesBytes n size =>
      match takesBytes, v with
      | true, .bytes b => b.length - n * size
      | _, v => (itemsOf M subType v).elim 0 fun xs => (xs.length - n) * size + (xs.map f).sum
  | .nested _ _ => f v

end Emission

mutual

/-- What is an object in the value is one of the class that is declared there. -/
def CType.Builds (M : PyModule) : CType → PyVal → Prop
  | .scalar _, _ => True
  | .stdArray elem _ _, v => elem.Builds M v
  | .cls name ms, .obj name' attrs => name' = name ∧ ms.Builds M attrs
  | .cls _ _, _ => True

def Members.Builds (M : PyModule) : Members → List (String × PyVal) → Prop
  | .nil, _ => True
  | .cons name _ t extents rest, attrs =>
      (∀ v, PyModule.get attrs name = some v →
        (emission t extents).Builds M (fun x => t.Builds M x) v) ∧ rest.Builds M attrs

end

mutual

/-- The value is an object of the class in the type, its attributes are there, and each can be
    packed. -/
def CType.Packs (M : PyModule) : CType → PyVal → Prop
  | .scalar _, _ => False
  | .stdArray elem _ _, v => elem.Packs M v
  | .cls name ms, .obj name' attrs => name' = name ∧ ms.Packs M attrs
  | .cls _ _, _ => False

def Members.Packs (M : PyModule) : Members → List (String × PyVal) → Prop
  | .nil, _ => True
  | .cons name _ t extents rest, attrs =>
      (∃ v, PyModule.get attrs name = some v ∧
        (emission t extents).Packs M (fun x => t.Packs M x) v) ∧ rest.Packs M attrs

end

mutual

/-- The bytes an object has too many: for every list in it, the items beyond the elements of the
    array, times their size. -/
def CType.surplus (M : PyModule) : CType → PyVal → Int
  | .scalar _, _ => 0
  | .stdArray elem _ _, v => elem.surplus M v
  | .cls _ ms, .obj _ attrs => ms.surplus M attrs
  | .cls _ _, _ => 0

def Members.surplus (M : PyModule) : Members → List (String × PyVal) → Int
  | .nil, _ => 0
  | .cons name _ t extents rest, attrs =>
      ((PyModule.get attrs name).elim 0 fun v =>
        (emission t extents).surplus M (fun x => t.surplus M x) v) + rest.surplus M attrs

end

/-- Every member has a value in a format, or objects of a class. -/
def Members.Regular (ms : Members) : Prop :=
  ∀ m ∈ ms.list, (emission m.type m.extents).isValue = true ∨ m.type.object.isSome = true

instance (ms : Members) : Decidable ms.Regular :=
  inferInstanceAs (Decidable (∀ m ∈ ms.list,
    (emission m.type m.extents).isValue = true ∨ m.type.object.isSome = true))

/-! ## Items -/

/-- A call packs what it should, and its bytes are counted. -/
structure Counts (call : PyVal → Option (List UInt8)) (P : PyVal → Prop) (f : PyVal → Int)
    (size : Nat) (v : PyVal) : Prop where
  packs : P v ↔ (call v).isSome = true
  length : ∀ bs, call v = some bs → (bs.length : Int) = size + f v

section

variable {M : PyModule} {call : PyVal → Option (List UInt8)} {P B : PyVal → Prop}
  {f : PyVal → Int} {size : Nat}

theorem mapM_bind {α β γ : Type} (g : α → Option β) (h : β → Option γ) (l : List α) :
    (l.mapM fun a => (g a).bind h) = (l.mapM g).bind fun bs => bs.mapM h := by
  induction l with
  | nil => rfl
  | cons a l ih =>
      rw [List.mapM_cons, List.mapM_cons, ih]
      cases g a with
      | none => rfl
      | some b =>
          cases l.mapM g with
          | none => cases hb : h b <;> simp [hb]
          | some bs => cases hb : h b <;> cases hbs : bs.mapM h <;> simp [hb, hbs]

/-- The loop calls `pack_wire` of the items in order. -/
theorem packArray_eq (subType : TypeName) (takesBytes : Bool) {v : PyVal}
    (h : ¬(takesBytes = true ∧ ∃ b, v = .bytes b)) : M.packArray call subType takesBytes v =
      (itemsOf M subType v).bind fun xs => (xs.mapM call).map List.flatten := by
  have hitems : ∀ items, M.packItems call subType items =
      (items.mapM (M.coerce subType)).bind fun xs => (xs.mapM call).map List.flatten := by
    intro items
    rw [PyModule.packItems, mapM_bind]
    cases items.mapM (M.coerce subType) <;> rfl
  have hiter : M.packArray call subType takesBytes v =
      v.iter?.bind (M.packItems call subType) := by
    cases v with
    | bytes b =>
        cases takesBytes with
        | true => exact absurd ⟨rfl, b, rfl⟩ h
        | false => rfl
    | _ => rfl
  rw [hiter, itemsOf, Option.bind_assoc]
  exact congrArg _ (funext hitems)

/-- The calls for a list of objects. -/
theorem mapM_counts {xs : List PyVal} (h : ∀ x ∈ xs, Counts call P f size x) :
    ((∀ x ∈ xs, P x) ↔ (xs.mapM call).isSome = true) ∧
      ∀ bss, xs.mapM call = some bss →
        (bss.flatten.length : Int) = xs.length * size + (xs.map f).sum := by
  refine ⟨?_, ?_⟩
  · rw [isSome_mapM, List.all_eq_true]
    exact forall₂_congr fun x hx => (h x hx).packs
  · induction xs with
    | nil =>
        intro bss hbss
        obtain rfl := Option.some.inj hbss
        simp
    | cons x xs ih =>
        intro bss hbss
        rw [List.mapM_cons] at hbss
        obtain ⟨bs, hbs, hrest⟩ := Option.bind_eq_some_iff.1 hbss
        obtain ⟨bss', hbss', heq⟩ := Option.bind_eq_some_iff.1 hrest
        obtain rfl := Option.some.inj heq
        have hhead := (h x List.mem_cons_self).length bs hbs
        have htail := ih (fun y hy => h y (List.mem_cons_of_mem _ hy)) bss' hbss'
        rw [List.flatten_cons, List.length_append, List.map_cons, List.sum_cons, List.length_cons]
        push_cast
        rw [hhead, htail]
        ring

/-! ## Members -/

/-- What one member writes. -/
structure Emission.Counts (M : PyModule) (call : PyVal → Option (List UInt8)) (P : PyVal → Prop)
    (f : PyVal → Int) (v : PyVal) (e : Emission) : Prop where
  packs : e.Packs M P v ↔ (e.pack M call v).isSome = true
  length : ∀ bs, e.pack M call v = some bs → (bs.length : Int) = e.advance + e.surplus M f v

theorem length_pack_singleton {item : Item} {v : PyVal} {bs : List UInt8}
    (h : PyStruct.pack [item] [v] = some bs) : bs.length = item.size := by
  cases item with
  | pad n => simp [PyStruct.pack] at h
  | str n =>
      cases v <;> simp [PyStruct.pack] at h
      next b =>
        subst h
        exact length_fit n b
  | code c =>
      obtain ⟨x, hx, h⟩ := Option.bind_eq_some_iff.1 h
      obtain ⟨y, hy, rfl⟩ := Option.map_eq_some_iff.1 h
      obtain rfl := Option.some.inj hy
      rw [List.append_nil]
      exact Code.length_pack hx

theorem packs_items_iff {subType : TypeName} {takesBytes : Bool} {n : Nat} {v : PyVal}
    (h : ¬(takesBytes = true ∧ ∃ b, v = .bytes b)) :
    (Emission.items subType takesBytes n size).Packs M P v ↔
      ∃ xs, itemsOf M subType v = some xs ∧ ∀ x ∈ xs, P x :=
  or_iff_right h

theorem surplus_items {subType : TypeName} {takesBytes : Bool} {n : Nat} {v : PyVal}
    (h : ¬(takesBytes = true ∧ ∃ b, v = .bytes b)) :
    (Emission.items subType takesBytes n size).surplus M f v =
      (itemsOf M subType v).elim 0 fun xs => (xs.length - n) * size + (xs.map f).sum := by
  cases takesBytes with
  | false => rfl
  | true =>
      cases v with
      | bytes b => exact absurd ⟨rfl, b, rfl⟩ h
      | _ => rfl

/-- A loop writes as many objects as there are items. -/
theorem counts_items {subType : TypeName} {takesBytes : Bool} {n : Nat} {v : PyVal}
    (hcall : ∀ x, B x → ReflectPytest.Counts call P f size x)
    (hv : (Emission.items subType takesBytes n size).Builds M B v) :
    (Emission.items subType takesBytes n size).Counts M call P f v := by
  by_cases hbytes : takesBytes = true ∧ ∃ b, v = .bytes b
  · obtain ⟨rfl, b, rfl⟩ := hbytes
    refine ⟨⟨fun _ => rfl, fun _ => .inl ⟨rfl, b, rfl⟩⟩, fun bs hbs => ?_⟩
    obtain rfl := Option.some.inj hbs
    simp [Emission.surplus, Emission.advance]
  · have hpack : (Emission.items subType takesBytes n size).pack M call v =
        (itemsOf M subType v).bind fun xs => (xs.mapM call).map List.flatten :=
      packArray_eq subType takesBytes hbytes
    cases hitems : itemsOf M subType v with
    | none =>
        rw [hitems, Option.bind_none] at hpack
        refine ⟨?_, fun bs hbs => ?_⟩
        · simp [packs_items_iff hbytes, hitems, hpack]
        · rw [hpack] at hbs
          exact absurd hbs (by simp)
    | some xs =>
        rw [hitems, Option.bind_some] at hpack
        obtain ⟨hpacks, hlength⟩ := mapM_counts fun x hx => hcall x (hv xs hitems x hx)
        refine ⟨?_, fun bs hbs => ?_⟩
        · rw [packs_items_iff hbytes, hitems, hpack, Option.isSome_map, ← hpacks]
          simp only [Option.some_inj, exists_eq_left']
        · rw [hpack] at hbs
          obtain ⟨bss, hbss, rfl⟩ := Option.map_eq_some_iff.1 hbs
          rw [hlength bss hbss, surplus_items hbytes, hitems, Emission.advance]
          simp only [Option.elim_some]
          push_cast
          ring

theorem CType.eq_of_object_stdArray {elem : CType} {inner : List Nat} {n : Nat}
    {c : String × Members} (h : (CType.stdArray elem inner n).object = some c) :
    elem = .cls c.1 c.2 ∧ inner = [] ∧ n ≠ 0 := by
  unfold CType.object at h
  split at h
  · next heq => exact absurd heq (by simp)
  · next name ms k heq =>
      obtain ⟨rfl, rfl, rfl⟩ := CType.stdArray.inj heq
      split at h
      · exact absurd h (by simp)
      · next hn =>
          obtain rfl := Option.some.inj h
          exact ⟨rfl, rfl, hn⟩
  · exact absurd h (by simp)

/-- A member of a kind that the generator gives as many bytes as it has. -/
theorem counts_emission {t : CType} {extents : List Nat} {v : PyVal} (hcoded : t.Coded extents)
    (hregular : (emission t extents).isValue = true ∨ t.object.isSome = true)
    (hcall : ∀ c, t.object = some c → ∀ x, (CType.cls c.1 c.2).Builds M x →
      ReflectPytest.Counts call (fun x => (CType.cls c.1 c.2).Packs M x)
        (fun x => (CType.cls c.1 c.2).surplus M x) (CType.cls c.1 c.2).size x)
    (hv : (emission t extents).Builds M (fun x => t.Builds M x) v) :
    (emission t extents).Counts M call (fun x => t.Packs M x) (fun x => t.surplus M x) v := by
  have hvalue : ∀ (item : Item) (size : Nat), item.size = size →
      (Emission.value item size).Counts M call (fun x => t.Packs M x)
        (fun x => t.surplus M x) v := by
    intro item size hsize
    refine ⟨Iff.rfl, fun bs hbs => ?_⟩
    rw [length_pack_singleton hbs, hsize]
    simp [Emission.advance, Emission.surplus]
  rcases extents with - | ⟨n, inner⟩
  · cases t with
    | scalar s => exact hvalue _ _ (Scalar.size_code hcoded)
    | cls sub ms =>
        obtain ⟨hpacks, hlength⟩ := hcall (sub, ms) rfl v hv
        exact ⟨hpacks, hlength⟩
    | stdArray elem inner n =>
        rw [emission_stdArray] at hregular hv ⊢
        split
        · exact hvalue _ _ rfl
        · next hbyte =>
            rw [if_neg hbyte] at hregular hv
            obtain ⟨c, hc⟩ := Option.isSome_iff_exists.1
              (hregular.resolve_left Bool.false_ne_true)
            obtain ⟨rfl, rfl, -⟩ := CType.eq_of_object_stdArray hc
            rw [List.prod_nil, Nat.one_mul] at hv ⊢
            exact counts_items (hcall c hc) hv
  · obtain ⟨-, hkind⟩ := CType.coded_array.1 hcoded
    rw [emission_array] at hv ⊢
    cases hbyte : t.isByte with
    | true => exact hvalue _ _ rfl
    | false =>
        rw [hbyte] at hkind hv
        obtain ⟨sub, ms, rfl⟩ := CType.eq_cls_of_isClass hkind
        exact counts_items (hcall (sub, ms) rfl) hv

end

/-! ## Objects -/

section

variable {M : PyModule} {call : PyVal → Option (List UInt8)}

/-- **All members**: the padding comes to the size of the class without the members. -/
theorem Members.pack_counts {attrs : List (String × PyVal)} {size : Nat} : ∀ (ms : Members)
    {off cur : Nat}, ms.WellFormed → ms.Visible → (∀ m ∈ ms.list, m.type.Coded m.extents) →
    (∀ m ∈ ms.list, ∀ v, (emission m.type m.extents).Builds M (fun x => m.type.Builds M x) v →
      (emission m.type m.extents).Counts M call (fun x => m.type.Packs M x)
        (fun x => m.type.surplus M x) v) →
    ms.Builds M attrs → cur ≤ off → ms.endOffset off ≤ size →
    (ms.Packs M attrs ↔ (ms.pack M call attrs size off cur).isSome = true) ∧
      ∀ bs, ms.pack M call attrs size off cur = some bs →
        (bs.length : Int) = size - cur + ms.surplus M attrs
  | .nil, off, cur, _, _, _, _, _, hcur, hsize => by
      rw [Members.endOffset] at hsize
      refine ⟨by simp [Members.Packs, Members.pack], fun bs hbs => ?_⟩
      rw [Members.pack] at hbs
      obtain rfl := Option.some.inj hbs
      rw [length_zeros, Members.surplus]
      omega
  | .cons name access t extents rest, off, cur, hw, hvisible, hcoded, hmembers, hbuilds, hcur,
      hsize => by
      obtain ⟨-, hwt, hwrest⟩ := hw
      obtain rfl : access = .accessible := hvisible _ List.mem_cons_self
      have hplace := le_roundUp off (CType.align_pos hwt)
      have hadvance : roundUp off t.align + (emission t extents).advance ≤
          roundUp off t.align + extents.prod * t.size :=
        Nat.add_le_add_left (advance_le (hcoded _ List.mem_cons_self)) _
      have hend := (rest.le_endOffset _ hwrest).trans hsize
      obtain ⟨hpacks, hlength⟩ := rest.pack_counts hwrest
        (fun m hm => hvisible m (List.mem_cons_of_mem _ hm))
        (fun m hm => hcoded m (List.mem_cons_of_mem _ hm))
        (fun m hm => hmembers m (List.mem_cons_of_mem _ hm)) hbuilds.2 hadvance hsize
      rw [Members.Packs, Members.pack, Members.surplus, Nat.max_eq_right (hcur.trans hplace)]
      cases hget : PyModule.get attrs name with
      | none => simp
      | some v =>
          obtain ⟨hmember, hmemberLength⟩ := hmembers _ List.mem_cons_self v (hbuilds.1 v hget)
          simp only [Option.some.injEq, exists_eq_left', Option.bind_some, Option.elim_some]
          refine ⟨?_, fun bs hbs => ?_⟩
          · rw [hmember, hpacks]
            cases (emission t extents).pack M call v <;> simp
          · obtain ⟨c, hc, hbs⟩ := Option.bind_eq_some_iff.1 hbs
            obtain ⟨p, hp, rfl⟩ := Option.map_eq_some_iff.1 hbs
            have hc' : (c.length : Int) = (emission t extents).advance +
                (emission t extents).surplus M (fun x => t.surplus M x) v := hmemberLength c hc
            have hp' := hlength p hp
            rw [List.length_append, List.length_append, length_zeros]
            push_cast at hp' ⊢
            rw [hc', hp']
            omega

/-- **What an object packs to**, when its class and the classes in it are encodable. -/
theorem packWire_counts : ∀ (k : Nat) {c : String × Members},
    M.Provides (CType.cls c.1 c.2).classes →
    (∀ ms ∈ (CType.cls c.1 c.2).instances, ms.Encodable ∧ ms.Regular) →
    (CType.cls c.1 c.2).WellFormed → (CType.cls c.1 c.2).depth ≤ k →
    ∀ v, (CType.cls c.1 c.2).Builds M v →
      Counts (M.packWire k) (fun x => (CType.cls c.1 c.2).Packs M x)
        (fun x => (CType.cls c.1 c.2).surplus M x) (CType.cls c.1 c.2).size v
  | 0, _, _, _, _, hdepth => by simp [CType.depth] at hdepth
  | k + 1, (name, ms), hprovides, hencodable, hw, hdepth => by
      intro v hv
      obtain ⟨hms, hregular⟩ := hencodable ms (CType.mem_instances name ms)
      have hne : ms.fields ≠ [] := fun hf => hms.nonempty (Members.list_eq_nil hms.visible hf)
      have hmembers : ∀ m ∈ ms.list, ∀ v,
          (emission m.type m.extents).Builds M (fun x => m.type.Builds M x) v →
          (emission m.type m.extents).Counts M (M.packWire k) (fun x => m.type.Packs M x)
            (fun x => m.type.surplus M x) v := by
        intro m hm v hv
        refine counts_emission (hms.coded m hm) (hregular m hm) (fun c hc => ?_) hv
        obtain ⟨hinst, hcls, hlt, hwf⟩ := CType.object_subset hm (hms.visible m hm) hc
        exact packWire_counts k (fun d hd => hprovides d (hcls hd))
          (fun ms' hms' => hencodable ms' (hinst hms')) (hwf hw)
          (Nat.le_of_lt_succ (hlt.trans_le hdepth))
      cases v with
      | obj name' attrs =>
          obtain ⟨rfl, hbuilds⟩ := hv
          have hsize : ms.endOffset 0 ≤ (CType.cls name' ms).size := Members.endOffset_le_size
          obtain ⟨hpacks, hlength⟩ :=
            ms.pack_counts hw.1 hms.visible hms.coded hmembers hbuilds le_rfl hsize
          have hpack : M.packWire (k + 1) (.obj name' attrs) =
              ms.pack M (M.packWire k) attrs (CType.cls name' ms).size 0 0 := by
            rw [PyModule.packWire, hprovides _ (CType.mem_classes name' ms), Option.bind_some,
              runPack_generateClass _ _ _ hne]
          refine ⟨?_, fun bs hbs => ?_⟩
          · rw [hpack]
            exact ⟨fun h => hpacks.1 h.2, fun h => ⟨rfl, hpacks.2 h⟩⟩
          · rw [hpack] at hbs
            have h := hlength bs hbs
            rw [Int.natCast_zero, sub_zero] at h
            exact h
      | _ =>
          refine ⟨⟨fun h => h.elim, fun h => absurd h Bool.false_ne_true⟩, fun bs hbs => ?_⟩
          exact absurd hbs (by simp [PyModule.packWire])

end

/-! ## Messages -/

/-- The object packs to the size the bridge requires for the message, or not at all. -/
def FixedSize (k : Nat) (id : MsgId) (v : PyVal) : Prop :=
  ∀ bs, generated.packWire k v = some bs → bs.length = (messageById id).wireSize ∧
    ∀ ids, id ∈ ids → (tryPublishRaw ids id bs).isSome = true

theorem payload_regular (id : MsgId) : ∀ ms ∈ id.payload.instances, ms.Regular := by
  cases id <;> decide

theorem payload_depth_le (id : MsgId) : id.payload.depth ≤ 3 := by
  cases id <;> decide

theorem packWire_payload_counts {id : MsgId} (hid : id ≠ .internalEnvData) {k : Nat} (hk : 3 ≤ k)
    {v : PyVal} (hv : id.payload.Builds generated v) :
    Counts (generated.packWire k) (fun x => id.payload.Packs generated x)
      (fun x => id.payload.surplus generated x) id.payload.size v := by
  obtain ⟨ms, hpayload⟩ := payload_eq_cls id
  have hprovides := generated_provides id
  have hwellFormed := payload_wellFormed id
  have hdepth := (payload_depth_le id).trans hk
  have hencodable : ∀ ms ∈ id.payload.instances, ms.Encodable ∧ ms.Regular := fun ms hms =>
    ⟨payload_encodable hid ms hms, payload_regular id ms hms⟩
  rw [hpayload] at hprovides hwellFormed hdepth hencodable hv ⊢
  exact packWire_counts (c := (_, ms)) k hprovides hencodable hwellFormed hdepth v hv

/-- **Every payload object has the size of its message or does not pack** if and only if it does not
    pack or its lists come out even. -/
theorem fixedSize_iff {id : MsgId} (hid : id ≠ .internalEnvData) {k : Nat} (hk : 3 ≤ k) {v : PyVal}
    (hv : id.payload.Builds generated v) : FixedSize k id v ↔
      ¬ id.payload.Packs generated v ∨ id.payload.surplus generated v = 0 := by
  obtain ⟨hpacks, hlength⟩ := packWire_payload_counts hid hk hv
  have hsize := wireSize_messageById id
  constructor
  · intro h
    by_cases hp : id.payload.Packs generated v
    · obtain ⟨bs, hbs⟩ := Option.isSome_iff_exists.1 (hpacks.1 hp)
      have hlen := (h bs hbs).1
      have hcount := hlength bs hbs
      exact .inr (by omega)
    · exact .inl hp
  · intro h bs hbs
    have hp : id.payload.Packs generated v := hpacks.2 (Option.isSome_iff_exists.2 ⟨bs, hbs⟩)
    have hzero := h.resolve_left fun hn => hn hp
    have hcount := hlength bs hbs
    have hlen : bs.length = id.payload.size := by omega
    refine ⟨hlen.trans hsize.symm, fun ids hids => ?_⟩
    rw [tryPublishRaw_of_mem hids hlen]
    rfl

/-- `MotorSubCmd(speed_rpm=r, duration_us=d)`. -/
def subCmd (r d : Int) : PyVal :=
  .obj "MotorSubCmd" [("speed_rpm", .int r), ("duration_us", .int d)]

/-- A motor sequence of these steps. -/
def motorSequence (steps : List PyVal) : PyVal :=
  .obj "MotorSequencePayloadTemplate_5"
    [("cmd_id", .int 1), ("num_steps", .int steps.length), ("steps", .list steps)]

theorem builds_subCmd (r d : Int) : Payload.motorSubCmd.Builds generated (subCmd r d) :=
  ⟨rfl, fun _ _ => trivial, fun _ _ => trivial, trivial⟩

theorem builds_motorSequence {steps : List PyVal} (xs : List PyVal)
    (hitems : itemsOf generated (.cls "MotorSubCmd") (.list steps) = some xs)
    (hxs : ∀ x ∈ xs, Payload.motorSubCmd.Builds generated x) :
    MsgId.motorSequence.payload.Builds generated (motorSequence steps) := by
  refine ⟨rfl, fun _ _ => trivial, fun _ _ => trivial, fun v hv => ?_, trivial⟩
  obtain rfl := Option.some.inj hv
  intro xs' hxs'
  obtain rfl := Option.some.inj (hitems.symm.trans hxs')
  exact hxs

/-- Five steps, two of them as tuples. -/
theorem fixedSize_five : FixedSize 3 .motorSequence (motorSequence [subCmd 500 20,
    .tuple [.int 1000, .int 20], .tuple [.int 1500, .int 10], subCmd 0 0, subCmd 0 0]) := by
  refine (fixedSize_iff (by decide) le_rfl (builds_motorSequence
    [subCmd 500 20, subCmd 1000 20, subCmd 1500 10, subCmd 0 0, subCmd 0 0] rfl ?_)).2 (.inr rfl)
  simp [builds_subCmd]

/-- The steps of the demo sequence. -/
def demoSteps : List PyVal :=
  [subCmd 500 2000000, subCmd 1000 2000000, subCmd 1500 2000000, subCmd (-500) 2000000,
    subCmd (-1000) 2000000, subCmd (-1500) 2000000]

/-- These are six steps, which come to 56 bytes. -/
theorem not_fixedSize_demo : MsgId.motorSequence.payload.Builds generated
    (motorSequence demoSteps) ∧ ¬ FixedSize 3 .motorSequence (motorSequence demoSteps) := by
  refine ⟨builds_motorSequence demoSteps rfl ?_, fun h => ?_⟩
  · simp [demoSteps, builds_subCmd]
  · obtain ⟨bs, hbs, hlen⟩ : ∃ bs, generated.packWire 3 (motorSequence demoSteps) = some bs ∧
        bs.length = 56 := ⟨_, rfl, rfl⟩
    exact absurd ((h bs hbs).1.symm.trans hlen) (by decide)

end ReflectPytest
