import ReflectPytest.Wire.Recovery

set_option autoImplicit false

/-! # The names of members

The codec of a struct should not depend on what its members are called. When it does not, and the
exact condition. -/

namespace ReflectPytest

open PyStruct PyModule

/-- The names that a generated module takes from Python. -/
def pythonNames : List String :=
  ["struct", "dataclass", "IntEnum", "bool", "int", "float", "bytes", "list", "bytearray",
    "hasattr", "isinstance", "tuple", "dict", "range", "classmethod"]

/-- A struct of the kind the generator is for, whatever its members are called: they have different
    names, and no class has the name of something else. -/
structure Generable (name : String) (ms : Members) : Prop where
  wellFormed : (CType.cls name ms).WellFormed
  unambiguous : Unambiguous (CType.cls name ms).classes
  supported : ∀ c ∈ (CType.cls name ms).classes, c.2.Supported
  names : ∀ c ∈ (CType.cls name ms).classes, c.1 ∉ pythonNames

/-- The emitted module can be imported, and `unpack_wire` returns every value from what `pack_wire`
    writes for it. -/
def RoundTrips (name : String) (ms : Members) : Prop :=
  (moduleOf (.cls name ms)).Imports ∧ ∀ v, (CType.cls name ms).HasType v → ∃ depth bs,
    (moduleOf (.cls name ms)).packWireScoped depth v = some bs ∧
    (moduleOf (.cls name ms)).unpackWireScoped depth name (.bytes bs) = some v

/-! ## Packing -/

section

variable {M : PyModule} {callP callP' : PyVal → Option (List UInt8)}

theorem mapM_mono {α β : Type} {f g : α → Option β} (h : ∀ x y, f x = some y → g x = some y)
    {xs : List α} {ys : List β} (hxs : xs.mapM f = some ys) : xs.mapM g = some ys := by
  induction xs generalizing ys with
  | nil => exact hxs
  | cons x xs ih =>
      simp only [List.mapM_cons, Option.bind_eq_bind, Option.bind_eq_some_iff, Option.pure_def,
        Option.some.injEq] at hxs ⊢
      obtain ⟨y, hy, rest, hrest, rfl⟩ := hxs
      exact ⟨y, h x y hy, rest, ih hrest, rfl⟩

theorem packItems_mono (h : ∀ v bs, callP v = some bs → callP' v = some bs) {subType : TypeName}
    {xs : List PyVal} {bs : List UInt8} (hxs : M.packItems callP subType xs = some bs) :
    M.packItems callP' subType xs = some bs := by
  obtain ⟨yss, hyss, rfl⟩ := Option.map_eq_some_iff.1 hxs
  refine Option.map_eq_some_iff.2 ⟨yss, mapM_mono (fun x y hx => ?_) hyss, rfl⟩
  obtain ⟨item, hitem, hcall⟩ := Option.bind_eq_some_iff.1 hx
  exact Option.bind_eq_some_iff.2 ⟨item, hitem, h item y hcall⟩

theorem runPackStmt_mono (h : ∀ v bs, callP v = some bs → callP' v = some bs)
    {attrs : List (String × PyVal)} {s : PackStmt} {bs : List UInt8}
    (hs : M.runPackStmt callP attrs s = some bs) : M.runPackStmt callP' attrs s = some bs := by
  cases s with
  | structPack fmt args => exact hs
  | nested field =>
      obtain ⟨v, hv, hcall⟩ := Option.bind_eq_some_iff.1 hs
      exact Option.bind_eq_some_iff.2 ⟨v, hv, h v bs hcall⟩
  | forItems field subType takesBytes =>
      obtain ⟨v, hv, harray⟩ := Option.bind_eq_some_iff.1 hs
      refine Option.bind_eq_some_iff.2 ⟨v, hv, ?_⟩
      unfold packArray at harray ⊢
      split at harray
      · next b =>
          by_cases hbytes : takesBytes = true
          · rw [if_pos hbytes] at harray ⊢
            exact harray
          · rw [if_neg hbytes] at harray ⊢
            exact packItems_mono h harray
      · obtain ⟨xs, hxs, hitems⟩ := Option.bind_eq_some_iff.1 harray
        exact Option.bind_eq_some_iff.2 ⟨xs, hxs, packItems_mono h hitems⟩

/-- A call that succeeds more often only makes more runs succeed. -/
theorem runPack_mono (h : ∀ v bs, callP v = some bs → callP' v = some bs)
    {attrs : List (String × PyVal)} {stmts : List PackStmt} {bs : List UInt8}
    (hs : M.runPack callP attrs stmts = some bs) : M.runPack callP' attrs stmts = some bs := by
  induction stmts generalizing bs with
  | nil => exact hs
  | cons s rest ih =>
      obtain ⟨data, hdata, hrest⟩ := Option.bind_eq_some_iff.1 hs
      obtain ⟨bs', hbs', rfl⟩ := Option.map_eq_some_iff.1 hrest
      exact Option.bind_eq_some_iff.2 ⟨data, runPackStmt_mono h hdata,
        Option.map_eq_some_iff.2 ⟨bs', ih hbs', rfl⟩⟩

/-- Where no attribute hides the method, `pack_wire` does what its statements mean. -/
theorem packWire_of_scoped : ∀ {k k' : Nat} {v : PyVal} {bs : List UInt8}, k ≤ k' →
    M.packWireScoped k v = some bs → M.packWire k' v = some bs
  | 0, _, _, _, _, h => absurd h (by simp [packWireScoped])
  | k + 1, 0, _, _, hle, _ => absurd hle (by omega)
  | k + 1, k' + 1, v, bs, hle, h => by
      cases v with
      | obj name attrs =>
          rw [packWireScoped] at h
          split at h
          · exact absurd h (by simp)
          · obtain ⟨c, hc, hrun⟩ := Option.bind_eq_some_iff.1 h
            rw [packWire, hc, Option.bind_some]
            exact runPack_mono (fun _ _ => packWire_of_scoped (Nat.le_of_succ_le_succ hle)) hrun
      | _ => exact absurd h (by simp [packWireScoped])

/-- An object in a member is packed with the member. -/
theorem packed_object {m : Member} (hkind : m.Kind) {v : PyVal} {bs : List UInt8}
    (hv : Declared m.type.isByte (fun x => m.type.HasType x) m.extents v)
    (h : (emission m.type m.extents).pack M callP v = some bs) {c : String × Members}
    (hc : m.type.object = some c) : ∃ w bs, (CType.cls c.1 c.2).HasType w ∧ callP w = some bs := by
  cases hkind with
  | value item size hemission hpos =>
      exact absurd ((object_of_value hemission).symm.trans hc) (by simp)
  | nested c' hobject hemission htyped =>
      obtain rfl := Option.some.inj (hobject.symm.trans hc)
      rw [hemission] at h
      exact ⟨v, bs, (htyped v).1 hv, h⟩
  | items c' takesBytes n hobject hemission htyped =>
      obtain rfl := Option.some.inj (hobject.symm.trans hc)
      rw [hemission] at h
      obtain ⟨xs, rfl, hlen, hxs⟩ := ((htyped v).1 hv).eq_list
      obtain ⟨x, xs, rfl⟩ := List.exists_cons_of_length_eq_add_one hlen
      have hx := hxs x List.mem_cons_self
      have hitems : M.packItems callP (.cls c'.1) (x :: xs) = some bs := h
      rw [packItems_cons _ _ hx] at hitems
      obtain ⟨data, hdata, -⟩ := Option.bind_eq_some_iff.1 hitems
      exact ⟨x, data, hx, hdata⟩

/-- **An object can be packed only if no class in it has a member called `pack_wire`.** -/
theorem method_of_packed : ∀ (k : Nat) {c : String × Members} {v : PyVal} {bs : List UInt8},
    M.Provides (CType.cls c.1 c.2).classes →
    (∀ d ∈ (CType.cls c.1 c.2).classes, d.2.Supported) → (CType.cls c.1 c.2).WellFormed →
    (CType.cls c.1 c.2).HasType v → M.packWireScoped k v = some bs →
    ∀ d ∈ (CType.cls c.1 c.2).classes, "pack_wire" ∉ d.2.names
  | 0, _, _, _, _, _, _, _, h => absurd h (by simp [packWireScoped])
  | k + 1, (name, ms), v, bs, hprovides, hclasses, hw, hv, h => by
      have hhere := CType.mem_classes name ms
      have hms := hclasses _ hhere
      obtain ⟨attrs, rfl, hattrs⟩ := CType.eq_obj_of_hasType hv
      have hnames := Members.names_of_haveTypes hattrs
      have hnodup := hw.2
      rw [← hnames] at hnodup
      rw [packWireScoped, hprovides _ hhere, Option.bind_some] at h
      split at h
      · exact absurd h (by simp)
      · next hhidden =>
          have hmethod : "pack_wire" ∉ ms.names := by
            rw [← hnames]
            intro hmem
            obtain ⟨a, ha, hname⟩ := List.mem_map.1 hmem
            refine hhidden ?_
            rw [← hname, get_of_mem hnodup ha]
            rfl
          rw [runPack_generateClass _ _ _ hms.fields_ne_nil] at h
          intro d hd
          rw [CType.classes, List.mem_append, List.mem_singleton] at hd
          rcases hd with hd | rfl
          · obtain ⟨m, hm, hacc, c, hc, hin⟩ :=
              Members.classes_of_object (fun m hm => hms.member hw.1 hm) hd
            obtain ⟨-, hcls, -, hwf⟩ := CType.object_subset hm hacc hc
            obtain ⟨u, hu, htyped⟩ := Members.value_of_haveTypes hattrs m hm
            obtain ⟨p, hp⟩ := Members.pack_member hms.visible h m hm
            rw [get_of_mem hnodup hu, Option.bind_some] at hp
            obtain ⟨w, bs', hw', hpacked⟩ :=
              packed_object (hms.member hw.1 hm).kind htyped hp hc
            exact method_of_packed k (fun d hd => hprovides d (hcls hd))
              (fun d hd => hclasses d (hcls hd)) (hwf hw) hw' hpacked d hin
          · exact hmethod

end

/-! ## The emitted module -/

section

variable {name : String} {ms : Members}

/-- The module has no other classes. -/
theorem mem_moduleOf {t : CType} (h : Unambiguous t.classes) {c : PyClass} (hc : c ∈ moduleOf t) :
    ∃ d ∈ t.classes, c = generateClass d.1 d.2 := by
  obtain ⟨hinv, -, -⟩ := generateStruct_spec h t [] (fun d hd => hd) (by simp) Emitted.Inv.init
  obtain ⟨d, hd, heq, -⟩ := hinv.emitted c hc
  exact ⟨d, hd, heq⟩

theorem Generable.find_eq_none (h : Generable name ms) {x : String} (hx : x ∈ pythonNames) :
    (moduleOf (.cls name ms)).find x = none := by
  cases hfind : (moduleOf (.cls name ms)).find x with
  | none => rfl
  | some c =>
      obtain ⟨hc, rfl⟩ := find_eq_some hfind
      obtain ⟨d, hd, rfl⟩ := mem_moduleOf h.unambiguous hc
      rw [generateClass_name] at hx
      exact absurd hx (h.names d hd)

theorem Generable.wellFormed_class (h : Generable name ms) :
    ∀ c ∈ (CType.cls name ms).classes, (CType.cls c.1 c.2).WellFormed :=
  fun _ hc => (CType.class_below _ hc).2 h.wellFormed

theorem Generable.sound (h : Generable name ms) (hloads : Loads (CType.cls name ms).classes)
    (k : Nat) : Sound ((moduleOf (.cls name ms)).unpackWireScoped k) := by
  refine sound_unpackWireScoped (fun c hc => ?_) k
  obtain ⟨d, hd, rfl⟩ := mem_moduleOf h.unambiguous hc
  have hms := h.supported d hd
  have hw := (h.wellFormed_class d hd).1
  have hdecoder := decoder_generateClass hms hw (hloads d hd).1
  exact ⟨hdecoder.ne_nil hms, hdecoder.proper fun m hm => (hms.member hw hm).kind⟩

/-- The classes in a supported class are those of its objects. -/
theorem CType.instances_supported : ∀ (k : Nat) {c : String × Members},
    (∀ d ∈ (CType.cls c.1 c.2).classes, d.2.Supported) → (CType.cls c.1 c.2).depth ≤ k →
    ∀ ms ∈ (CType.cls c.1 c.2).instances, ms.Supported
  | 0, _, _, hdepth => by simp [CType.depth] at hdepth
  | k + 1, (name, ms), hclasses, hdepth => by
      have hms := hclasses _ (CType.mem_classes name ms)
      intro ms' hin
      rw [CType.instances] at hin
      rcases List.mem_cons.1 hin with rfl | hin
      · exact hms
      · obtain ⟨m, hm, c, hc, hin⟩ := Members.instances_of_coded hms.coded hin
        obtain ⟨-, hcls, hlt, -⟩ := CType.object_subset hm (hms.visible m hm) hc
        exact CType.instances_supported k (fun d hd => hclasses d (hcls hd))
          (Nat.le_of_lt_succ (hlt.trans_le hdepth)) ms' hin

theorem Generable.imports_iff (h : Generable name ms) : (moduleOf (.cls name ms)).Imports ↔
    Loads (CType.cls name ms).classes ∧
      ∀ c ∈ (CType.cls name ms).classes, (generateClass c.1 c.2).defaultsLast = true := by
  refine and_congr (executable_moduleOf h.unambiguous) ⟨fun hM c hc => ?_, fun hM c hc => ?_⟩
  · exact hM _ (find_eq_some (provides_moduleOf h.unambiguous c hc)).1
  · obtain ⟨d, hd, rfl⟩ := mem_moduleOf h.unambiguous hc
    exact hM d hd

/-! ## The condition -/

end

/-- `struct Header { uint8_t kind; }` -/
def header : Members := .cons "kind" .accessible (.scalar (.arith .uchar)) [] .nil

/-- `struct Track { Header headers[3]; char tag[4]; int32_t delta; }` -/
def track : Members :=
  .cons "headers" .accessible (.cls "Header" header) [3]
    (.cons "tag" .accessible (.scalar (.arith .char)) [4]
      (.cons "delta" .accessible (.scalar (.arith .int)) [] .nil))

/-- `struct Chunk { uint32_t start; }`, with any name for `start`. -/
def chunk (start : String) : Members := .cons start .accessible (.scalar (.arith .uint)) [] .nil

end ReflectPytest
