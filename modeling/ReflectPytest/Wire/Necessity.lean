import ReflectPytest.Wire.Codec

set_option autoImplicit false

/-! # What a working codec requires

A member that is read as one of its own values is of a coded kind. If `pack_wire` never raises, no
enumeration is signed, and if it writes `sizeof` bytes, no class object is empty. -/

namespace ReflectPytest

open PyStruct LittleEndian

/-! ## Reading -/

section

variable {M : PyModule} {callU : String → List UInt8 → Option PyVal} {data : List UInt8}

theorem Members.fields_sublist : ∀ ms : Members, (ms.fields.map Prod.fst).Sublist ms.names
  | .nil => List.Sublist.slnil
  | .cons _ .hidden _ _ rest => rest.fields_sublist.cons _
  | .cons _ .accessible _ _ rest => rest.fields_sublist.cons_cons _

/-- A class whose members all have a field has no hidden ones. -/
theorem Members.visible_of_names : ∀ {ms : Members}, ms.fields.map Prod.fst = ms.names → ms.Visible
  | .nil, _ => by simp [Members.Visible, Members.list]
  | .cons name .hidden _ _ rest, h => by
      have hle := rest.fields_sublist.length_le
      have hlen := congrArg List.length h
      rw [Members.names, List.length_cons] at hlen
      have hlen : (rest.fields.map Prod.fst).length = rest.names.length + 1 := hlen
      omega
  | .cons name .accessible t extents rest, h => by
      have hrest := rest.visible_of_names (List.cons.inj h).2
      intro m hm
      rcases List.mem_cons.1 hm with rfl | hm
      · rfl
      · exact hrest m hm

/-- What is read as a class object is what `unpack_wire` of the class returns. -/
theorem call_of_unpackNested {subType : TypeName} {v : PyVal} {offset offset' : Nat}
    (h : M.unpackNested callU data subType offset = some (v, offset')) :
    ∃ name bs, subType = .cls name ∧ callU name bs = some v := by
  cases subType with
  | cls name =>
      obtain ⟨size, -, hcall⟩ := Option.bind_eq_some_iff.1 h
      obtain ⟨item, hitem, heq⟩ := Option.map_eq_some_iff.1 hcall
      exact ⟨name, _, rfl, (Prod.mk.inj heq).1 ▸ hitem⟩
  | _ => exact absurd h (by simp [PyModule.unpackNested])

theorem call_of_unpackItems {subType : TypeName} : ∀ {n offset offset' : Nat} {xs : List PyVal},
    M.unpackItems callU data subType n offset = some (xs, offset') →
    xs.length = n ∧ (0 < n → ∃ x ∈ xs, ∃ name bs, subType = .cls name ∧ callU name bs = some x)
  | 0, _, _, xs, h => by
      obtain ⟨rfl, -⟩ := Prod.mk.inj (Option.some.inj h)
      exact ⟨rfl, fun hlt => absurd hlt (lt_irrefl 0)⟩
  | n + 1, offset, offset', xs, h => by
      obtain ⟨⟨x, offset₁⟩, hitem, hrest⟩ := Option.bind_eq_some_iff.1 h
      obtain ⟨⟨items, offset₂⟩, hitems, heq⟩ := Option.map_eq_some_iff.1 hrest
      obtain ⟨rfl, -⟩ := Prod.mk.inj heq
      have hlen := (call_of_unpackItems hitems).1
      refine ⟨by rw [List.length_cons, hlen], fun _ => ⟨x, List.mem_cons_self, ?_⟩⟩
      exact call_of_unpackNested hitem

/-- A Python type name is that of a class for classes only. -/
theorem isClass_of_getPythonTypeName {t : CType} {extents : List Nat} {name : String}
    (h : getPythonTypeName t extents = .cls name) : extents = [] ∧ ∃ ms, t = .cls name ms := by
  unfold getPythonTypeName at h
  split at h
  · next ms => exact ⟨rfl, ms, by rw [TypeName.cls.inj h]⟩
  all_goals exact absurd h (by simp)

theorem Scalar.hasOwnCode_of_unpack {s : Scalar} {bs : List UInt8}
    (h : s.HasValue ((getStructFormatChar s).unpack bs)) : s.HasOwnCode := by
  cases s with
  | arith t => cases t <;> first | exact h.elim | decide
  | enum name t =>
      have hown : (Scalar.enum "" t).HasOwnCode := by
        cases t <;> first | exact h.elim | decide
      exact hown
  | float => decide
  | double => decide
  | half => exact h.elim
  | longDouble => exact h.elim
  | other size align => exact h.elim

theorem isClass_of_items {t : CType} {extents : List Nat} {n offset offset' : Nat} {xs : List PyVal}
    (hn : 0 < n)
    (h : M.unpackItems callU data (getPythonTypeName t extents) n offset = some (xs, offset')) :
    extents = [] ∧ ∃ name ms, t = .cls name ms ∧ ∃ x ∈ xs, ∃ bs, callU name bs = some x := by
  obtain ⟨x, hx, name, bs, hname, hcall⟩ := (call_of_unpackItems h).2 hn
  obtain ⟨hext, ms, ht⟩ := isClass_of_getPythonTypeName hname
  exact ⟨hext, name, ms, ht, x, hx, bs, hcall⟩

theorem eq_of_unpack_code {c : Code} {size offset offset' : Nat} {v : PyVal}
    (h : (Emission.value (.code c) size).unpack M callU data offset = some (v, offset')) :
    ∃ bs, v = c.unpack bs := by
  obtain ⟨vals, hvals, hhead⟩ := Option.bind_eq_some_iff.1 h
  unfold unpackFrom at hvals
  split at hvals
  · obtain rfl := Option.some.inj hvals
    obtain ⟨w, hw, heq⟩ := Option.map_eq_some_iff.1 hhead
    obtain rfl := Option.some.inj hw
    exact ⟨_, (Prod.mk.inj heq).1.symm⟩
  · exact absurd hvals (by simp)

theorem eq_of_unpack_str {n size offset offset' : Nat} {v : PyVal}
    (h : (Emission.value (.str n) size).unpack M callU data offset = some (v, offset')) :
    ∃ b, v = .bytes b ∧ b.length = n := by
  obtain ⟨vals, hvals, hhead⟩ := Option.bind_eq_some_iff.1 h
  unfold unpackFrom at hvals
  split at hvals
  · next hlen =>
      obtain rfl := Option.some.inj hvals
      obtain ⟨w, hw, heq⟩ := Option.map_eq_some_iff.1 hhead
      obtain rfl := Option.some.inj hw
      refine ⟨_, (Prod.mk.inj heq).1.symm, ?_⟩
      rw [calcsize_singleton, Item.size] at hlen
      simp
      omega
  · exact absurd hvals (by simp)

theorem eq_of_unpack_items {subType : TypeName} {takesBytes : Bool} {n size offset offset' : Nat}
    {v : PyVal} (h : (Emission.items subType takesBytes n size).unpack M callU data offset =
      some (v, offset')) :
    ∃ xs, v = .list xs ∧ M.unpackItems callU data subType n offset = some (xs, offset') := by
  obtain ⟨⟨xs, offset₁⟩, hxs, heq⟩ := Option.map_eq_some_iff.1 h
  obtain ⟨hv, hoffset⟩ := Prod.mk.inj heq
  exact ⟨xs, hv.symm, hoffset ▸ hxs⟩

theorem CType.object_of_isByte {t : CType} (h : t.isByte = true) : t.object = none := by
  cases t with
  | scalar s => rfl
  | _ => exact absurd h Bool.false_ne_true

/-- **A member that is read as one of its own values is coded**, and a class object in it is read as
    one of its own. -/
theorem coded_of_unpack {t : CType} {extents : List Nat} {v : PyVal} {offset offset' : Nat}
    (hext : ∀ k ∈ extents, 0 < k) (hv : Declared t.isByte (fun x => t.HasType x) extents v)
    (h : (emission t extents).unpack M callU data offset = some (v, offset')) :
    t.Coded extents ∧ ∀ c, t.object = some c →
      ∃ w bs, (CType.cls c.1 c.2).HasType w ∧ callU c.1 bs = some w := by
  rcases extents with - | ⟨n, inner⟩
  · cases t with
    | scalar s =>
        refine ⟨?_, fun c hc => absurd hc (by simp [CType.object])⟩
        obtain ⟨bs, rfl⟩ := eq_of_unpack_code h
        exact Scalar.hasOwnCode_of_unpack hv
    | cls sub ms =>
        refine ⟨trivial, fun c hc => ?_⟩
        obtain rfl := Option.some.inj hc
        have h : M.unpackNested callU data (.cls sub) offset = some (v, offset') := h
        obtain ⟨name, bs, hname, hcall⟩ := call_of_unpackNested h
        obtain rfl := TypeName.cls.inj hname
        exact ⟨v, bs, hv, hcall⟩
    | stdArray elem inner n =>
        rw [emission_stdArray] at h
        split at h
        · next hbyte =>
            obtain ⟨hbyte, hinner⟩ := Bool.and_eq_true_iff.1 hbyte
            refine ⟨Or.inr ⟨List.isEmpty_iff.1 hinner, by rw [hbyte, Bool.true_or]⟩, fun c hc => ?_⟩
            cases elem with
            | scalar s => exact absurd hc (by simp [CType.object])
            | _ => exact absurd hbyte Bool.false_ne_true
        · next hbyte =>
            by_cases hn : n = 0
            · subst hn
              refine ⟨Or.inl rfl, fun c hc => absurd hc ?_⟩
              unfold CType.object
              split <;> simp_all
            · obtain ⟨xs, rfl, hxs⟩ := eq_of_unpack_items h
              obtain ⟨rfl, sub, ms, rfl, x, hx, bs, hcall⟩ :=
                isClass_of_items (Nat.pos_of_ne_zero hn) hxs
              have hv : HoldsArray false (fun x => (CType.cls sub ms).HasType x) n (.list xs) := hv
              refine ⟨Or.inr ⟨rfl, rfl⟩, fun c hc => ?_⟩
              rw [CType.object, if_neg hn] at hc
              obtain rfl := Option.some.inj hc
              exact ⟨x, bs, hv.2.2 x hx, hcall⟩
  · have hn : 0 < n := hext n List.mem_cons_self
    have hv : HoldsArray t.isByte (fun x => t.HasType x) (n :: inner).prod v := hv
    have hinner : ∀ k, k = n → k = (n :: inner).prod → inner.prod = 1 := by
      rintro k rfl hprod
      rw [List.prod_cons] at hprod
      exact Nat.eq_of_mul_eq_mul_left hn (hprod.symm.trans (Nat.mul_one k).symm)
    rw [emission_array] at h
    cases hbyte : t.isByte with
    | true =>
        rw [hbyte] at hv h
        obtain ⟨b, rfl, hlen⟩ := eq_of_unpack_str h
        refine ⟨CType.coded_array.2 ⟨hinner _ hlen hv.2, by rw [hbyte, Bool.true_or]⟩,
          fun c hc => ?_⟩
        exact absurd ((CType.object_of_isByte hbyte).symm.trans hc) (by simp)
    | false =>
        rw [hbyte] at hv h
        obtain ⟨xs, rfl, hxs⟩ := eq_of_unpack_items h
        obtain ⟨-, sub, ms, rfl, x, hx, bs, hcall⟩ := isClass_of_items hn hxs
        refine ⟨CType.coded_array.2 ⟨hinner _ (call_of_unpackItems hxs).1 hv.2.1, rfl⟩,
          fun c hc => ?_⟩
        obtain rfl := Option.some.inj hc
        exact ⟨x, bs, hv.2.2 x hx, hcall⟩

end

/-! ## The class objects below a class -/

theorem CType.instances_of_coded {t : CType} {extents : List Nat} {ms : Members}
    (hcoded : t.Coded extents) (h : ms ∈ t.instances) :
    ∃ c, t.object = some c ∧ ms ∈ (CType.cls c.1 c.2).instances := by
  cases t with
  | scalar s => exact absurd h (by simp [CType.instances])
  | cls name ms' => exact ⟨(name, ms'), rfl, h⟩
  | stdArray elem inner n =>
      rw [CType.instances] at h
      split at h
      · exact absurd h (by simp)
      · next hn =>
          cases extents with
          | nil =>
              obtain ⟨rfl, hkind⟩ := hcoded.resolve_left hn
              cases elem with
              | scalar s => exact absurd h (by simp [CType.instances])
              | cls name ms' => exact ⟨(name, ms'), if_neg hn, h⟩
              | stdArray elem' inner' n' => exact absurd hkind Bool.false_ne_true
          | cons k rest => exact absurd (CType.coded_array.1 hcoded).2 Bool.false_ne_true

theorem Members.instances_of_coded : ∀ {ms : Members} {ms' : Members},
    (∀ m ∈ ms.list, m.type.Coded m.extents) → ms' ∈ ms.instances →
      ∃ m ∈ ms.list, ∃ c, m.type.object = some c ∧ ms' ∈ (CType.cls c.1 c.2).instances
  | .nil, _, _, h => by simp [Members.instances] at h
  | .cons name access t extents rest, ms', hcoded, h => by
      rw [Members.instances, List.mem_append] at h
      rcases h with h | h
      · exact ⟨_, List.mem_cons_self, CType.instances_of_coded (hcoded _ List.mem_cons_self) h⟩
      · obtain ⟨m, hm, hobj⟩ := rest.instances_of_coded
          (fun m hm => hcoded m (List.mem_cons_of_mem _ hm)) h
        exact ⟨m, List.mem_cons_of_mem _ hm, hobj⟩

theorem Members.wellFormed_of_mem : ∀ {ms : Members} {m : Member}, ms.WellFormed → m ∈ ms.list →
    (∀ k ∈ m.extents, 0 < k) ∧ m.type.WellFormed
  | .nil, m, _, h => by simp [Members.list] at h
  | .cons _ _ _ _ rest, m, hw, h => by
      rcases List.mem_cons.1 h with rfl | h
      · exact ⟨hw.1, hw.2.1⟩
      · exact rest.wellFormed_of_mem hw.2.2 h

theorem Members.eq_nil_of_list {ms : Members} (h : ms.list = []) : ms = .nil := by
  cases ms with
  | nil => rfl
  | cons => exact absurd h (by simp [Members.list])

/-! ## The number of bytes -/

/-- No class object in an object of the class is empty. -/
def Filled (c : String × Members) : Prop := ∀ ms ∈ (CType.cls c.1 c.2).instances, ms.list ≠ []

/-- Objects of the class take at most `sizeof` bytes, and fewer if a class object in it is empty. -/
def Bounded (callP : PyVal → Option (List UInt8)) (c : String × Members) : Prop :=
  ∀ v bs, (CType.cls c.1 c.2).HasType v → callP v = some bs →
    bs.length ≤ (CType.cls c.1 c.2).size ∧ (bs.length = (CType.cls c.1 c.2).size → Filled c)

section

variable {M : PyModule} {callP : PyVal → Option (List UInt8)}

theorem Bounded.packItems {name : String} {ms : Members} (h : Bounded callP (name, ms))
    {subType : TypeName} {xs : List PyVal} (hxs : ∀ x ∈ xs, (CType.cls name ms).HasType x)
    {bs : List UInt8} (hbs : M.packItems callP subType xs = some bs) :
    bs.length ≤ xs.length * (CType.cls name ms).size ∧
      (bs.length = xs.length * (CType.cls name ms).size → xs ≠ [] → Filled (name, ms)) := by
  induction xs generalizing bs with
  | nil =>
      obtain rfl := Option.some.inj hbs
      exact ⟨Nat.zero_le _, fun _ hne => absurd rfl hne⟩
  | cons x xs ih =>
      have hx := hxs x List.mem_cons_self
      rw [packItems_cons _ xs hx] at hbs
      obtain ⟨data, hdata, hrest⟩ := Option.bind_eq_some_iff.1 hbs
      obtain ⟨rest, hitems, rfl⟩ := Option.map_eq_some_iff.1 hrest
      have hle : data.length ≤ (CType.cls name ms).size := (h x data hx hdata).1
      have hfull : data.length = (CType.cls name ms).size → Filled (name, ms) :=
        (h x data hx hdata).2
      have hih := (ih (fun y hy => hxs y (List.mem_cons_of_mem _ hy)) hitems).1
      rw [List.length_append, List.length_cons, Nat.succ_mul]
      exact ⟨by omega, fun heq _ => hfull (by omega)⟩

theorem length_of_pack_value {item : Item} (hitem : ∀ n, item ≠ .pad n) {v : PyVal}
    {bs : List UInt8} (h : PyStruct.pack [item] [v] = some bs) : bs.length = item.size := by
  cases item with
  | pad n => exact absurd rfl (hitem n)
  | str n =>
      cases v with
      | bytes b =>
          obtain rfl : fit n b ++ [] = bs := by simpa [PyStruct.pack] using h
          simp [length_fit, Item.size]
      | _ => exact absurd h (by simp [PyStruct.pack])
  | code c =>
      obtain ⟨x, hx, hrest⟩ := Option.bind_eq_some_iff.1 h
      obtain rfl : x ++ [] = bs := by simpa [PyStruct.pack] using hrest
      simpa [Item.size] using Code.length_pack hx

/-- A coded member takes at most the bytes it is given, and fewer if a class object inside is empty.
    -/
theorem length_of_pack_emission {t : CType} {extents : List Nat} {v : PyVal} {bs : List UInt8}
    (hcoded : t.Coded extents) (hext : ∀ k ∈ extents, 0 < k)
    (hv : Declared t.isByte (fun x => t.HasType x) extents v)
    (hcalls : ∀ c, t.object = some c → Bounded callP c)
    (h : (emission t extents).pack M callP v = some bs) :
    bs.length ≤ (emission t extents).advance ∧
      (bs.length = (emission t extents).advance → ∀ c, t.object = some c → Filled c) := by
  rcases extents with - | ⟨n, inner⟩
  · cases t with
    | scalar s =>
        have hlen := (length_of_pack_value (fun _ => Item.noConfusion) h).trans
          (Scalar.size_code hcoded)
        exact ⟨hlen.le, fun _ c hc => absurd hc (by simp [CType.object])⟩
    | cls sub ms =>
        obtain ⟨hle, hfull⟩ := hcalls (sub, ms) rfl v bs hv h
        refine ⟨hle, fun heq c hc => ?_⟩
        obtain rfl := Option.some.inj hc
        exact hfull heq
    | stdArray elem inner n =>
        have hv : HoldsArray (elem.isByte && inner.isEmpty)
          (Declared elem.isByte (fun x => elem.HasType x) inner) n v := hv
        by_cases hn : n = 0
        · subst hn
          obtain ⟨hpack, hadvance, -⟩ := pack_stdArray_zero M callP hv
          obtain rfl := Option.some.inj (hpack.symm.trans h)
          refine ⟨Nat.zero_le _, fun _ c hc => absurd hc ?_⟩
          unfold CType.object
          split <;> simp_all
        · obtain ⟨rfl, hkind⟩ := hcoded.resolve_left hn
          rw [emission_stdArray] at h ⊢
          have hv : HoldsArray (elem.isByte && true) (fun x => elem.HasType x) n v := hv
          cases hbyte : elem.isByte with
          | true =>
              rw [hbyte] at h
              have hlen := length_of_pack_value (fun _ => Item.noConfusion) h
              refine ⟨hlen.le, fun _ c hc => ?_⟩
              cases elem with
              | scalar s => exact absurd hc (by simp [CType.object])
              | _ => exact absurd hbyte Bool.false_ne_true
          | false =>
              rw [hbyte] at hv hkind h
              obtain ⟨xs, rfl, rfl, hxs⟩ := hv.eq_list
              obtain ⟨sub, ms, rfl⟩ := CType.eq_cls_of_isClass hkind
              have hobj : (CType.stdArray (.cls sub ms) [] xs.length).object = some (sub, ms) :=
                if_neg hn
              have hitems := (hcalls (sub, ms) hobj).packItems hxs h
              rw [List.prod_nil, Nat.one_mul]
              refine ⟨hitems.1, fun heq c hc => ?_⟩
              obtain rfl := Option.some.inj (hobj.symm.trans hc)
              exact hitems.2 heq fun hnil => hn (by rw [hnil]; rfl)
  · obtain ⟨hinner, hkind⟩ := CType.coded_array.1 hcoded
    have hn : 0 < n := hext n List.mem_cons_self
    have hprod : (n :: inner).prod = n := by rw [List.prod_cons, hinner, Nat.mul_one]
    have hv : HoldsArray t.isByte (fun x => t.HasType x) (n :: inner).prod v := hv
    rw [hprod] at hv
    rw [emission_array] at h ⊢
    cases hbyte : t.isByte with
    | true =>
        rw [hbyte] at h
        have hlen := length_of_pack_value (fun _ => Item.noConfusion) h
        exact ⟨hlen.le, fun _ c hc =>
          absurd ((CType.object_of_isByte hbyte).symm.trans hc) (by simp)⟩
    | false =>
        rw [hbyte] at hv hkind h
        obtain ⟨xs, rfl, rfl, hxs⟩ := hv.eq_list
        obtain ⟨sub, ms, rfl⟩ := CType.eq_cls_of_isClass hkind
        have hitems := (hcalls (sub, ms) rfl).packItems hxs h
        refine ⟨hitems.1, fun heq c hc => ?_⟩
        obtain rfl := Option.some.inj hc
        exact hitems.2 heq (List.ne_nil_of_length_pos hn)

/-- **The members take at most the bytes up to `size`**, and fewer if a class object inside is
    empty. -/
theorem Members.length_of_pack {env : List (String × PyVal)} {size : Nat} : ∀ (ms : Members)
    {attrs : List (String × PyVal)} {off cur : Nat} {p : List UInt8}, ms.WellFormed → ms.Visible →
    (∀ m ∈ ms.list, m.type.Coded m.extents) →
    (∀ m ∈ ms.list, ∀ c, m.type.object = some c → Bounded callP c) → ms.HaveTypes attrs →
    (∀ a ∈ attrs, PyModule.get env a.1 = some a.2) → cur ≤ off → ms.endOffset off ≤ size →
    ms.pack M callP env size off cur = some p → p.length + cur ≤ size ∧
      (p.length + cur = size → ∀ m ∈ ms.list, ∀ c, m.type.object = some c → Filled c)
  | .nil, [], off, cur, p, _, _, _, _, _, _, hcur, hsize, h => by
      rw [Members.endOffset] at hsize
      obtain rfl := Option.some.inj h
      rw [length_zeros]
      exact ⟨by omega, fun _ m hm => by simp [Members.list] at hm⟩
  | .nil, _ :: _, _, _, _, _, _, _, _, h, _, _, _, _ => h.elim
  | .cons _ _ _ _ _, [], _, _, _, _, _, _, _, h, _, _, _, _ => h.elim
  | .cons name access t extents rest, (name', v) :: attrs, off, cur, p, hw, hvisible, hcoded,
      hcalls, hv, henv, hcur, hsize, h => by
      obtain ⟨rfl, hdecl, hrest⟩ := hv
      obtain ⟨hext, hwt, hwrest⟩ := hw
      obtain rfl : access = .accessible := hvisible _ List.mem_cons_self
      have htcoded := hcoded _ List.mem_cons_self
      have hplace := le_roundUp off (CType.align_pos hwt)
      rw [Members.pack, henv _ List.mem_cons_self, Option.bind_some] at h
      obtain ⟨c, hpack, hnext⟩ := Option.bind_eq_some_iff.1 h
      obtain ⟨q, hq, rfl⟩ := Option.map_eq_some_iff.1 hnext
      rw [Nat.max_eq_right (hcur.trans hplace)] at hq
      obtain ⟨hle, hfull⟩ := length_of_pack_emission htcoded hext hdecl
        (hcalls _ List.mem_cons_self) hpack
      obtain ⟨hleRest, hfullRest⟩ := rest.length_of_pack hwrest
        (fun m hm => hvisible m (List.mem_cons_of_mem _ hm))
        (fun m hm => hcoded m (List.mem_cons_of_mem _ hm))
        (fun m hm => hcalls m (List.mem_cons_of_mem _ hm)) hrest
        (fun a ha => henv a (List.mem_cons_of_mem _ ha))
        (Nat.add_le_add_left (advance_le htcoded) (roundUp off t.align)) hsize hq
      simp only [List.length_append, length_zeros]
      refine ⟨by omega, fun heq m hm => ?_⟩
      rcases List.mem_cons.1 hm with rfl | hm
      · exact hfull (by omega)
      · exact hfullRest (by omega) m hm

theorem CType.size_pos_of_isClass {t : CType} (h : t.isClass = true) : 0 < t.size := by
  obtain ⟨name, ms, rfl⟩ := CType.eq_cls_of_isClass h
  exact lt_of_lt_of_le Nat.one_pos (Nat.le_max_left _ _)

/-- **The codec never writes more than `sizeof` bytes, and fewer if a class object inside is
    empty.** -/
theorem bounded_packWire : ∀ (k : Nat) {c : String × Members},
    M.Provides (CType.cls c.1 c.2).classes → (CType.cls c.1 c.2).WellFormed →
    (∀ ms ∈ (CType.cls c.1 c.2).instances, ms.Visible ∧ ∀ m ∈ ms.list, m.type.Coded m.extents) →
    Bounded (M.packWire k) c
  | 0, _, _, _, _, v, bs, _, h => by simp [PyModule.packWire] at h
  | k + 1, (name, ms), hprovides, hw, hcoded, v, bs, hv, h => by
      have hhere := CType.mem_classes name ms
      obtain ⟨hvisible, hms⟩ := hcoded ms (CType.mem_instances name ms)
      obtain ⟨attrs, rfl, hattrs⟩ := CType.eq_obj_of_hasType hv
      have hnodup : (attrs.map Prod.fst).Nodup := by
        rw [Members.names_of_haveTypes hattrs]
        exact hw.2
      rw [PyModule.packWire, hprovides _ hhere, Option.bind_some] at h
      by_cases hne : ms.fields = []
      · simp only [generateClass, if_pos hne, PyModule.runPack, Option.some.injEq] at h
        subst h
        have hpos := CType.size_pos_of_isClass (t := .cls name ms) rfl
        exact ⟨Nat.zero_le _, fun heq => absurd heq hpos.ne⟩
      · rw [runPack_generateClass _ _ _ hne] at h
        have hcalls : ∀ m ∈ ms.list, ∀ c, m.type.object = some c → Bounded (M.packWire k) c := by
          intro m hm c hc
          obtain ⟨hinst, hcls, -, hwf⟩ := CType.object_subset hm (hvisible m hm) hc
          exact bounded_packWire k (fun d hd => hprovides d (hcls hd)) (hwf hw)
            fun ms' hms' => hcoded ms' (hinst hms')
        obtain ⟨hle, hfull⟩ := ms.length_of_pack hw.1 hvisible hms hcalls hattrs
          (fun a ha => get_of_mem hnodup ha) le_rfl Members.endOffset_le_size h
        refine ⟨hle, fun heq ms' hms' => ?_⟩
        rw [CType.instances] at hms'
        rcases List.mem_cons.1 hms' with rfl | hms'
        · intro hnil
          obtain rfl := Members.eq_nil_of_list hnil
          exact hne rfl
        · obtain ⟨m, hm, c, hobj, hin⟩ := Members.instances_of_coded hms hms'
          exact hfull heq m hm c hobj ms' hin

end

/-! ## Signed enumerations -/

/-- A value declared with the given extents. -/
def declaredDefault (isByte : Bool) (default : PyVal) (extents : List Nat) : PyVal :=
  if extents = [] then default
  else if isByte then .bytes (zeros extents.prod) else .list (List.replicate extents.prod default)

mutual

/-- A value of the type. -/
def CType.default : CType → PyVal
  | .scalar s => s.default
  | .stdArray elem extents n =>
      if elem.isByte && extents.isEmpty then .bytes (zeros n)
      else .list (List.replicate n (declaredDefault elem.isByte elem.default extents))
  | .cls name ms => .obj name ms.defaults

def Members.defaults : Members → List (String × PyVal)
  | .nil => []
  | .cons name _ t extents rest =>
      (name, declaredDefault t.isByte t.default extents) :: rest.defaults

end

theorem holdsArray_replicate {P : PyVal → Prop} {x : PyVal} (n : Nat) (hx : P x) :
    HoldsArray false P n (.list (List.replicate n x)) :=
  ⟨rfl, List.length_replicate, fun _ hy => List.eq_of_mem_replicate hy ▸ hx⟩

theorem declared_declaredDefault {isByte : Bool} {P : PyVal → Prop} {x : PyVal} (hx : P x)
    (extents : List Nat) : Declared isByte P extents (declaredDefault isByte x extents) := by
  unfold Declared declaredDefault
  by_cases hext : extents = []
  · rwa [if_pos hext, if_pos hext]
  · rw [if_neg hext, if_neg hext]
    cases isByte with
    | true => exact ⟨rfl, length_zeros _⟩
    | false => exact holdsArray_replicate _ hx

mutual

theorem CType.default_hasType : ∀ t : CType, t.HasType t.default
  | .scalar s => s.default_hasValue
  | .stdArray elem extents n => by
      unfold CType.HasType CType.default
      cases hbyte : elem.isByte && extents.isEmpty with
      | true => exact ⟨rfl, length_zeros _⟩
      | false =>
          exact holdsArray_replicate _ (declared_declaredDefault elem.default_hasType extents)
  | .cls name ms => by
      unfold CType.HasType CType.default
      exact ⟨rfl, ms.defaults_haveTypes⟩

theorem Members.defaults_haveTypes : ∀ ms : Members, ms.HaveTypes ms.defaults
  | .nil => trivial
  | .cons _ _ t extents rest =>
      ⟨rfl, declared_declaredDefault t.default_hasType extents, rest.defaults_haveTypes⟩

end

/-- A member can have any of its values. -/
theorem Members.exists_haveTypes : ∀ {ms : Members} {m : Member} {v : PyVal}, m ∈ ms.list →
    Declared m.type.isByte (fun x => m.type.HasType x) m.extents v →
    ∃ attrs, ms.HaveTypes attrs ∧ (m.name, v) ∈ attrs
  | .nil, _, _, hm, _ => by simp [Members.list] at hm
  | .cons name access t extents rest, m, v, hm, hv => by
      rcases List.mem_cons.1 hm with rfl | hm
      · exact ⟨(name, v) :: rest.defaults, ⟨rfl, hv, rest.defaults_haveTypes⟩, List.mem_cons_self⟩
      · obtain ⟨attrs, hattrs, hmem⟩ := rest.exists_haveTypes hm hv
        exact ⟨(name, declaredDefault t.isByte t.default extents) :: attrs,
          ⟨rfl, declared_declaredDefault t.default_hasType extents, hattrs⟩,
          List.mem_cons_of_mem _ hmem⟩

section

variable {M : PyModule} {callP : PyVal → Option (List UInt8)}

/-- When the members are packed, each of them is. -/
theorem Members.pack_member {env : List (String × PyVal)} {size : Nat} : ∀ {ms : Members}
    {off cur : Nat} {p : List UInt8}, ms.Visible → ms.pack M callP env size off cur = some p →
    ∀ m ∈ ms.list, ∃ c, ((PyModule.get env m.name).bind fun v =>
      (emission m.type m.extents).pack M callP v) = some c
  | .nil, _, _, _, _, _, m, hm => by simp [Members.list] at hm
  | .cons name access t extents rest, off, cur, p, hvisible, h, m, hm => by
      obtain rfl : access = .accessible := hvisible _ List.mem_cons_self
      obtain ⟨c, hc, hnext⟩ := Option.bind_eq_some_iff.1 h
      obtain ⟨q, hq, -⟩ := Option.map_eq_some_iff.1 hnext
      rcases List.mem_cons.1 hm with rfl | hm
      · exact ⟨c, hc⟩
      · exact rest.pack_member (fun m hm => hvisible m (List.mem_cons_of_mem _ hm)) hq m hm

/-- The code of a signed enumeration does not take `-1`. -/
theorem Scalar.pack_neg_one {name : String} {t : IntType}
    (hcode : (Scalar.enum name t).HasOwnCode) (hsigned : t.isSigned = true) :
    (getStructFormatChar (.enum name t)).pack (.int (-1)) = none := by
  have hcode : (Scalar.enum "" t).HasOwnCode := hcode
  have hnone : (getStructFormatChar (.enum "" t)).pack (.int (-1)) = none := by
    cases t <;> first | exact absurd hcode (by decide) | exact absurd hsigned (by decide) | decide
  exact hnone

theorem IntType.inRange_neg_one {t : IntType} (hsigned : t.isSigned = true) : t.InRange (-1) := by
  cases t <;> first | exact absurd hsigned (by decide) | decide

/-- Whatever a class object may be can be packed. -/
def Packs (M : PyModule) (c : String × Members) : Prop :=
  ∀ v, (CType.cls c.1 c.2).HasType v → ∃ k bs, M.packWire k v = some bs

theorem packs_of_items {name : String} {ms : Members} {n k : Nat} {subType : TypeName} {w : PyVal}
    {bs : List UInt8} (hn : n ≠ 0) (hw : (CType.cls name ms).HasType w)
    (h : M.packItems (M.packWire k) subType (List.replicate n w) = some bs) :
    ∃ k bs, M.packWire k w = some bs := by
  obtain ⟨n, rfl⟩ := Nat.exists_eq_succ_of_ne_zero hn
  rw [List.replicate_succ, packItems_cons _ _ hw] at h
  obtain ⟨data, hdata, -⟩ := Option.bind_eq_some_iff.1 h
  exact ⟨k, data, hdata⟩

/-- A class object inside a member is packed with the member, for an array as each of the items. -/
theorem packs_object {t : CType} {extents : List Nat} (hcoded : t.Coded extents)
    (hext : ∀ k ∈ extents, 0 < k)
    (h : ∀ v, Declared t.isByte (fun x => t.HasType x) extents v →
      ∃ k bs, (emission t extents).pack M (M.packWire k) v = some bs)
    {c : String × Members} (hc : t.object = some c) : Packs M c := by
  intro w hw
  rcases extents with - | ⟨n, inner⟩
  · cases t with
    | scalar s => exact absurd hc (by simp [CType.object])
    | cls sub ms =>
        obtain rfl := Option.some.inj hc
        exact h w hw
    | stdArray elem inner n =>
        by_cases hn : n = 0
        · subst hn
          refine absurd hc ?_
          unfold CType.object
          split <;> simp_all
        · obtain ⟨rfl, hkind⟩ := hcoded.resolve_left hn
          cases elem with
          | scalar s => exact absurd hc (by simp [CType.object])
          | stdArray elem' inner' n' => exact absurd hc (by simp [CType.object])
          | cls sub ms =>
              obtain rfl := Option.some.inj ((if_neg hn).symm.trans hc)
              obtain ⟨k, bs, hpack⟩ := h (.list (List.replicate n w)) (holdsArray_replicate n hw)
              exact packs_of_items hn hw hpack
  · obtain ⟨hinner, hkind⟩ := CType.coded_array.1 hcoded
    have hn : n ≠ 0 := (hext n List.mem_cons_self).ne'
    have hprod : (n :: inner).prod = n := by rw [List.prod_cons, hinner, Nat.mul_one]
    cases t with
    | scalar s => exact absurd hc (by simp [CType.object])
    | stdArray elem' inner' n' => exact absurd hkind Bool.false_ne_true
    | cls sub ms =>
        obtain rfl := Option.some.inj hc
        have hv : Declared false (fun x => (CType.cls sub ms).HasType x) (n :: inner)
            (.list (List.replicate n w)) := by
          rw [Declared, if_neg (List.cons_ne_nil n inner), hprod]
          exact holdsArray_replicate n hw
        obtain ⟨k, bs, hpack⟩ := h _ hv
        exact packs_of_items hn hw hpack

/-- If every value of a member can be packed, it is no signed enumeration. -/
theorem unsigned_of_pack {t : CType} {extents : List Nat} (hcoded : t.Coded extents)
    (h : ∀ v, Declared t.isByte (fun x => t.HasType x) extents v →
      ∃ callP bs, (emission t extents).pack M callP v = some bs) :
    t.isSignedEnum extents = false := by
  unfold CType.isSignedEnum
  split
  · next name t =>
      by_contra hsigned
      rw [Bool.not_eq_false] at hsigned
      obtain ⟨callP, bs, hpack⟩ := h (.int (-1)) (IntType.inRange_neg_one hsigned)
      have hnone := Scalar.pack_neg_one hcoded hsigned
      simp [emission, Emission.pack, PyStruct.pack, hnone] at hpack
  · rfl

/-- **If every value can be packed, no enumeration inside is signed.** -/
theorem unsigned_of_packs : ∀ (d : Nat) {c : String × Members}, (CType.cls c.1 c.2).depth ≤ d →
    M.Provides (CType.cls c.1 c.2).classes → (CType.cls c.1 c.2).WellFormed →
    (∀ ms ∈ (CType.cls c.1 c.2).instances, ms.Visible ∧ ∀ m ∈ ms.list, m.type.Coded m.extents) →
    Packs M c → ∀ ms ∈ (CType.cls c.1 c.2).instances, ∀ m ∈ ms.list,
      m.type.isSignedEnum m.extents = false
  | 0, _, hdepth, _, _, _, _ => by simp [CType.depth] at hdepth
  | d + 1, (name, ms), hdepth, hprovides, hw, hcoded, hpacks => by
      have hhere := CType.mem_classes name ms
      obtain ⟨hvisible, hms⟩ := hcoded ms (CType.mem_instances name ms)
      have hmember : ∀ m ∈ ms.list, ∀ v,
          Declared m.type.isByte (fun x => m.type.HasType x) m.extents v →
          ∃ k bs, (emission m.type m.extents).pack M (M.packWire k) v = some bs := by
        intro m hm v hv
        obtain ⟨attrs, hattrs, hmem⟩ := Members.exists_haveTypes hm hv
        have hnodup : (attrs.map Prod.fst).Nodup := by
          rw [Members.names_of_haveTypes hattrs]
          exact hw.2
        have htyped : (CType.cls name ms).HasType (.obj name attrs) := by
          unfold CType.HasType
          exact ⟨rfl, hattrs⟩
        obtain ⟨k, bs, hbs⟩ := hpacks _ htyped
        cases k with
        | zero => exact absurd hbs (by simp [PyModule.packWire])
        | succ k =>
            have hne : ms.fields ≠ [] := by
              intro hf
              rw [Members.list_eq_nil hvisible hf] at hm
              exact absurd hm (by simp)
            rw [PyModule.packWire, hprovides _ hhere, Option.bind_some,
              runPack_generateClass _ _ _ hne] at hbs
            obtain ⟨c, hc⟩ := Members.pack_member hvisible hbs m hm
            rw [get_of_mem hnodup hmem, Option.bind_some] at hc
            exact ⟨k, c, hc⟩
      intro ms' hms' m hm
      rw [CType.instances] at hms'
      rcases List.mem_cons.1 hms' with rfl | hms'
      · refine unsigned_of_pack (M := M) (hms m hm) fun v hv => ?_
        obtain ⟨k, bs, hbs⟩ := hmember m hm v hv
        exact ⟨_, bs, hbs⟩
      · obtain ⟨m', hm', c, hobj, hin⟩ := Members.instances_of_coded hms hms'
        obtain ⟨hinst, hcls, hlt, hwf⟩ := CType.object_subset hm' (hvisible m' hm') hobj
        exact unsigned_of_packs d (Nat.le_of_lt_succ (hlt.trans_le hdepth))
          (fun d hd => hprovides d (hcls hd)) (hwf hw)
          (fun ms'' h'' => hcoded ms'' (hinst h''))
          (packs_object (hms m' hm') (Members.wellFormed_of_mem hw.1 hm').1 (hmember m' hm') hobj)
          ms' hin m hm

end

end ReflectPytest
