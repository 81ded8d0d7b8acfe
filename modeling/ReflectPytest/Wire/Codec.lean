import Mathlib.Data.List.Nodup
import ReflectPytest.Wire.Loading

set_option autoImplicit false

/-! # What the generated codec gets right

A class object is *encodable* if it has members, all of them accessible, each of a kind that the
generator gives as many bytes as it has, and no enumeration is signed. If all class objects inside a
type are encodable, `pack_wire` writes the object with zero padding, and `unpack_wire` reads the
value from any object that has it. -/

namespace ReflectPytest

open PyStruct LittleEndian

/-! ## Encodable classes -/

def CType.isClass : CType → Bool
  | .cls _ _ => true
  | _ => false

mutual

/-- The member lists of the class objects an object of the type contains, itself included. -/
def CType.instances : CType → List Members
  | .scalar _ => []
  | .stdArray elem _ n => if n = 0 then [] else elem.instances
  | .cls _ ms => ms :: ms.instances

def Members.instances : Members → List Members
  | .nil => []
  | .cons _ _ t _ rest => t.instances ++ rest.instances

end

/-- `get_struct_format_char` maps the type to a code of its own size. -/
def Scalar.HasOwnCode : Scalar → Prop
  | .other _ _ => False
  | s => (getStructFormatChar s).size = s.size

instance (s : Scalar) : Decidable s.HasOwnCode := by
  unfold Scalar.HasOwnCode
  split <;> infer_instance

/-- The generator moves the offset by what it packs: a scalar with its own code, an array of bytes
    or of class objects with at most one extent that counts, a class, or an empty `std::array`. -/
def CType.Coded : CType → List Nat → Prop
  | .scalar s, [] => s.HasOwnCode
  | .stdArray elem extents n, [] => n = 0 ∨ extents = [] ∧ (elem.isByte || elem.isClass) = true
  | .cls _ _, [] => True
  | t, _ :: inner => inner.prod = 1 ∧ (t.isByte || t.isClass) = true

instance (t : CType) (extents : List Nat) : Decidable (t.Coded extents) := by
  unfold CType.Coded
  split <;> infer_instance

theorem CType.coded_array {t : CType} {n : Nat} {inner : List Nat} :
    t.Coded (n :: inner) ↔ inner.prod = 1 ∧ (t.isByte || t.isClass) = true := by
  cases t <;> rfl

/-- An enumeration with a signed underlying type, which has an unsigned code. -/
def CType.isSignedEnum : CType → List Nat → Bool
  | .scalar (.enum _ t), [] => t.isSigned
  | _, _ => false

/-- Every member has a Python field. -/
def Members.Visible (ms : Members) : Prop := ∀ m ∈ ms.list, m.access = .accessible

instance (ms : Members) : Decidable ms.Visible :=
  inferInstanceAs (Decidable (∀ m ∈ ms.list, m.access = .accessible))

/-- The class objects the generated codec gets right. -/
structure Members.Encodable (ms : Members) : Prop where
  nonempty : ms.list ≠ []
  visible : ms.Visible
  coded : ∀ m ∈ ms.list, m.type.Coded m.extents
  unsigned : ∀ m ∈ ms.list, m.type.isSignedEnum m.extents = false

instance (ms : Members) : Decidable ms.Encodable :=
  decidable_of_iff (ms.list ≠ [] ∧ ms.Visible ∧ (∀ m ∈ ms.list, m.type.Coded m.extents) ∧
    ∀ m ∈ ms.list, m.type.isSignedEnum m.extents = false)
    ⟨fun ⟨h₁, h₂, h₃, h₄⟩ => ⟨h₁, h₂, h₃, h₄⟩, fun ⟨h₁, h₂, h₃, h₄⟩ => ⟨h₁, h₂, h₃, h₄⟩⟩

/-! ## The classes inside a member -/

/-- The class whose objects a member holds, if it holds any. -/
def CType.object : CType → Option (String × Members)
  | .cls name ms => some (name, ms)
  | .stdArray (.cls name ms) [] n => if n = 0 then none else some (name, ms)
  | _ => none

mutual

/-- How deep `pack_wire` and `unpack_wire` recurse. -/
def CType.depth : CType → Nat
  | .scalar _ => 0
  | .stdArray elem _ _ => elem.depth
  | .cls _ ms => ms.depth + 1

def Members.depth : Members → Nat
  | .nil => 0
  | .cons _ _ t _ rest => max t.depth rest.depth

end

/-- What is known of the class of a member's objects. -/
theorem CType.object_spec {t : CType} {c : String × Members} (h : t.object = some c) :
    (CType.cls c.1 c.2).instances ⊆ t.instances ∧ (CType.cls c.1 c.2).classes ⊆ t.base.classes ∧
      (CType.cls c.1 c.2).depth ≤ t.depth ∧ (t.WellFormed → (CType.cls c.1 c.2).WellFormed) := by
  unfold CType.object at h
  split at h
  · obtain rfl := Option.some.inj h
    exact ⟨List.Subset.refl _, List.Subset.refl _, le_rfl, id⟩
  · next name ms n =>
      split at h
      · exact absurd h (by simp)
      · next hn =>
          obtain rfl := Option.some.inj h
          refine ⟨?_, ?_, ?_, fun hw => ?_⟩
          · simp [CType.instances, hn]
          · simp [CType.base]
          · simp [CType.depth]
          · rw [CType.WellFormed] at hw
            exact hw.2
  · exact absurd h (by simp)

theorem CType.mem_classes (name : String) (ms : Members) :
    (name, ms) ∈ (CType.cls name ms).classes := by
  simp [CType.classes]

theorem CType.mem_instances (name : String) (ms : Members) :
    ms ∈ (CType.cls name ms).instances := by
  simp [CType.instances]

theorem Members.object_subset : ∀ {ms : Members} {m : Member} {c : String × Members},
    m ∈ ms.list → m.access = .accessible → m.type.object = some c →
      (CType.cls c.1 c.2).instances ⊆ ms.instances ∧ (CType.cls c.1 c.2).classes ⊆ ms.classes ∧
        (CType.cls c.1 c.2).depth ≤ ms.depth ∧ (ms.WellFormed → (CType.cls c.1 c.2).WellFormed)
  | .nil, m, c, hm, _, _ => by simp [Members.list] at hm
  | .cons name access t extents rest, m, c, hm, hacc, hobj => by
      rw [Members.instances, Members.depth, Members.WellFormed]
      rcases List.mem_cons.1 hm with rfl | hm
      · obtain ⟨hinst, hcls, hdepth, hwf⟩ := CType.object_spec hobj
        obtain rfl : access = .accessible := hacc
        rw [Members.classes_cons]
        exact ⟨List.Subset.trans hinst (List.subset_append_left _ _),
          List.Subset.trans hcls (List.subset_append_left _ _), hdepth.trans (Nat.le_max_left _ _),
          fun h => hwf h.2.1⟩
      · obtain ⟨hinst, hcls, hdepth, hwf⟩ := rest.object_subset hm hacc hobj
        refine ⟨List.Subset.trans hinst (List.subset_append_right _ _), ?_,
          hdepth.trans (Nat.le_max_right _ _), fun h => hwf h.2.2⟩
        cases access with
        | hidden => rwa [Members.classes]
        | accessible =>
            rw [Members.classes_cons]
            exact List.Subset.trans hcls (List.subset_append_right _ _)

/-- The same for the class of the members. -/
theorem CType.object_subset {name : String} {ms : Members} {m : Member} {c : String × Members}
    (hm : m ∈ ms.list) (hacc : m.access = .accessible) (hobj : m.type.object = some c) :
    (CType.cls c.1 c.2).instances ⊆ (CType.cls name ms).instances ∧
      (CType.cls c.1 c.2).classes ⊆ (CType.cls name ms).classes ∧
      (CType.cls c.1 c.2).depth < (CType.cls name ms).depth ∧
      ((CType.cls name ms).WellFormed → (CType.cls c.1 c.2).WellFormed) := by
  obtain ⟨hinst, hcls, hdepth, hwf⟩ := Members.object_subset hm hacc hobj
  rw [CType.instances.eq_def (.cls name ms), CType.classes.eq_def (.cls name ms)]
  exact ⟨List.Subset.trans hinst (List.subset_cons_self _ _),
    List.Subset.trans hcls (List.subset_append_left _ _), Nat.lt_succ_of_le hdepth,
    fun h => hwf h.1⟩

/-! ## Scalars -/

namespace Scalar

/-- An integral code of the right size takes all values of the type. -/
theorem code_arith {t : IntType} (hbool : t ≠ .bool) (h : (Scalar.arith t).HasOwnCode) :
    (getStructFormatChar (.arith t)).isInt = true ∧
      ∀ i, t.InRange i → (getStructFormatChar (.arith t)).InRange i := by
  cases t
  case bool => exact absurd rfl hbool
  case int128 => exact absurd h (by decide)
  case uint128 => exact absurd h (by decide)
  all_goals exact ⟨rfl, fun i hi => hi⟩

theorem code_enum {name : String} {t : IntType} (h : (Scalar.enum name t).HasOwnCode)
    (hsigned : t.isSigned = false) : (getStructFormatChar (.enum name t)).isInt = true ∧
      ∀ i, t.InRange i → (getStructFormatChar (.enum name t)).InRange i := by
  have h : (Scalar.enum "" t).HasOwnCode := h
  have hbool : (1 : Int) < 256 ^ (getStructFormatChar (.enum "" .bool)).size := by decide
  cases t
  case bool => exact ⟨rfl, fun i hi => ⟨hi.1, lt_of_le_of_lt hi.2 hbool⟩⟩
  all_goals first
    | exact absurd h (by decide)
    | exact absurd hsigned (by decide)
    | exact ⟨rfl, fun i hi => hi⟩

/-- **A scalar with its own code is packed as its object and read from it.** -/
theorem pack_unpack {s : Scalar} {v : PyVal} (h : s.HasOwnCode)
    (hsigned : ∀ name t, s = .enum name t → t.isSigned = false) (hv : s.HasValue v) :
    (getStructFormatChar s).pack v = some (s.encode v) ∧
      (getStructFormatChar s).unpack (s.encode v) = v := by
  have hint : ∀ i, (getStructFormatChar s).isInt = true → (getStructFormatChar s).InRange i →
      (getStructFormatChar s).size = s.size →
      (getStructFormatChar s).pack (.int i) = some (s.encode (.int i)) ∧
        (getStructFormatChar s).unpack (s.encode (.int i)) = .int i := by
    intro i hisInt hrange hsize
    refine ⟨?_, ?_⟩
    · rw [Code.pack_int hisInt, if_pos hrange, hsize, encode]
    · rw [encode, ← hsize]
      exact Code.unpack_bytesOfInt hisInt hrange
  unfold HasValue at hv
  split at hv
  · next b => cases b <;> exact ⟨rfl, rfl⟩
  · exact hv.elim
  · next t i hbool =>
      obtain ⟨hisInt, hrange⟩ := code_arith (fun ht => hbool (by rw [ht])) h
      exact hint i hisInt (hrange i hv) h
  · next x =>
      refine ⟨rfl, ?_⟩
      simp [getStructFormatChar, Code.unpack, encode, value_bytesOf, Nat.mod_eq_of_lt x.isLt]
  · next x =>
      refine ⟨rfl, ?_⟩
      simp [getStructFormatChar, Code.unpack, encode, value_bytesOf, Nat.mod_eq_of_lt x.isLt]
  · next t i =>
      obtain ⟨hisInt, hrange⟩ := code_enum h (hsigned _ t rfl)
      exact hint i hisInt (hrange i hv) h
  · exact absurd h (by decide)
  · exact absurd h (by decide)
  · exact h.elim
  · exact hv.elim

theorem size_code {s : Scalar} (h : s.HasOwnCode) : (getStructFormatChar s).size = s.size := by
  unfold HasOwnCode at h
  split at h
  · exact h.elim
  · exact h

end Scalar

/-! ## Members -/

/-- The members of a member's value are packed and read as they should be. -/
structure Calls (M : PyModule) (callP : PyVal → Option (List UInt8))
    (callU : String → List UInt8 → Option PyVal) (c : String × Members) : Prop where
  found : M.find c.1 = some (generateClass c.1 c.2)
  pack : ∀ v, (CType.cls c.1 c.2).HasType v → callP v = some ((CType.cls c.1 c.2).encode v)
  unpack : ∀ v bs, (CType.cls c.1 c.2).HasType v → (CType.cls c.1 c.2).Represents v bs →
    callU c.1 bs = some v

theorem CType.eq_obj_of_hasType {name : String} {ms : Members} {v : PyVal}
    (h : (CType.cls name ms).HasType v) : ∃ attrs, v = .obj name attrs ∧ ms.HaveTypes attrs := by
  cases v with
  | obj name' attrs =>
      unfold CType.HasType at h
      exact ⟨attrs, by rw [h.1], h.2⟩
  | _ => exact h.elim

section

variable {M : PyModule} {callP : PyVal → Option (List UInt8)}
  {callU : String → List UInt8 → Option PyVal} {data : List UInt8} {name : String} {ms : Members}

/-- Items are packed one after another; an object needs no coercion. -/
theorem packItems_cons (subType : TypeName) {x : PyVal} (xs : List PyVal)
    (hx : (CType.cls name ms).HasType x) : M.packItems callP subType (x :: xs) =
      (callP x).bind fun data => (M.packItems callP subType xs).map (data ++ ·) := by
  obtain ⟨attrs, rfl, -⟩ := CType.eq_obj_of_hasType hx
  have hcoerce : M.coerce subType (.obj name attrs) = some (.obj name attrs) := rfl
  unfold PyModule.packItems
  rw [List.mapM_cons, hcoerce, Option.bind_some]
  cases callP (.obj name attrs) with
  | none => rfl
  | some data => cases xs.mapM fun item => (M.coerce subType item).bind callP <;> rfl

theorem Calls.packItems (h : Calls M callP callU (name, ms)) {xs : List PyVal}
    (hxs : ∀ x ∈ xs, (CType.cls name ms).HasType x) :
    M.packItems callP (.cls name) xs =
      some (xs.flatMap fun x => (CType.cls name ms).encode x) := by
  induction xs with
  | nil => rfl
  | cons x xs ih =>
      have hx := hxs x List.mem_cons_self
      rw [packItems_cons _ xs hx, h.pack _ hx, ih fun y hy => hxs y (List.mem_cons_of_mem _ hy)]
      rfl

theorem drop_slice (bs : List UInt8) (offset m n : Nat) :
    (PyModule.slice bs offset (m + n)).drop m = PyModule.slice bs (offset + m) n := by
  simp [PyModule.slice, List.drop_take, List.drop_drop]

theorem take_slice (bs : List UInt8) (offset m n : Nat) :
    (PyModule.slice bs offset (m + n)).take m = PyModule.slice bs offset m := by
  simp [PyModule.slice, List.take_take]

theorem Calls.unpackNested (h : Calls M callP callU (name, ms)) {v : PyVal} {offset : Nat}
    (hv : (CType.cls name ms).HasType v) (hrep : (CType.cls name ms).Represents v
      (PyModule.slice data offset (CType.cls name ms).size)) :
    M.unpackNested callU data (.cls name) offset =
      some (v, offset + (CType.cls name ms).size) := by
  simp [PyModule.unpackNested, PyModule.wireSize, h.found, h.unpack v _ hv hrep]

theorem Calls.unpackItems (h : Calls M callP callU (name, ms)) {xs : List PyVal} {offset : Nat}
    (hxs : ∀ x ∈ xs, (CType.cls name ms).HasType x)
    (hrep : RepList (fun x => (CType.cls name ms).Represents x) (CType.cls name ms).size xs
      (PyModule.slice data offset (xs.length * (CType.cls name ms).size))) :
    M.unpackItems callU data (.cls name) xs.length offset =
      some (xs, offset + xs.length * (CType.cls name ms).size) := by
  induction xs generalizing offset with
  | nil => simp [PyModule.unpackItems]
  | cons x xs ih =>
      obtain ⟨hhead, htail⟩ := hrep
      rw [List.length_cons, Nat.succ_mul, Nat.add_comm (xs.length * _)] at hhead htail
      rw [take_slice] at hhead
      rw [drop_slice] at htail
      have hrest := ih (fun y hy => hxs y (List.mem_cons_of_mem _ hy)) htail
      rw [List.length_cons, PyModule.unpackItems, h.unpackNested (hxs x List.mem_cons_self) hhead,
        Option.bind_some]
      dsimp only
      rw [hrest, Option.map_some, Nat.succ_mul, Nat.add_assoc, Nat.add_comm (xs.length * _)]

/-! ## One member -/

theorem CType.eq_cls_of_isClass {t : CType} (h : t.isClass = true) :
    ∃ name ms, t = .cls name ms := by
  cases t with
  | cls name ms => exact ⟨name, ms, rfl⟩
  | _ => exact absurd h Bool.false_ne_true

/-- A byte string of the declared length. -/
theorem pack_str (M : PyModule) (callP : PyVal → Option (List UInt8)) (b : List UInt8) :
    (Emission.value (.str b.length) b.length).pack M callP (.bytes b) = some b := by
  simp [Emission.pack, PyStruct.pack, fit_of_length]

theorem unpack_str (M : PyModule) (callU : String → List UInt8 → Option PyVal) {b : List UInt8}
    {offset : Nat} (h : PyModule.slice data offset b.length = b)
    (hlen : offset + b.length ≤ data.length) :
    (Emission.value (.str b.length) b.length).unpack M callU data offset =
      some (.bytes b, offset + b.length) := by
  rw [Emission.unpack, unpackFrom, calcsize_singleton, Item.size, if_pos hlen]
  exact congrArg (fun b' => some (PyVal.bytes b', offset + b.length)) h

theorem unpack_code {c : Code} {v : PyVal} {offset : Nat}
    (h : c.unpack (PyModule.slice data offset c.size) = v) (hlen : offset + c.size ≤ data.length) :
    (Emission.value (.code c) c.size).unpack M callU data offset = some (v, offset + c.size) := by
  rw [Emission.unpack, unpackFrom, calcsize_singleton, Item.size, if_pos hlen]
  exact congrArg (fun v' => some (v', offset + c.size)) h

theorem Calls.unpack_items (h : Calls M callP callU (name, ms)) {xs : List PyVal} {offset : Nat}
    (takesBytes : Bool) (hxs : ∀ x ∈ xs, (CType.cls name ms).HasType x)
    (hrep : RepList (fun x => (CType.cls name ms).Represents x) (CType.cls name ms).size xs
      (PyModule.slice data offset (xs.length * (CType.cls name ms).size))) :
    (Emission.items (.cls name) takesBytes xs.length (CType.cls name ms).size).unpack M callU data
      offset = some (.list xs, offset + xs.length * (CType.cls name ms).size) := by
  rw [Emission.unpack, h.unpackItems hxs hrep]
  rfl

/-- `emission` of a `std::array`. -/
theorem emission_stdArray (elem : CType) (inner : List Nat) (n : Nat) :
    emission (.stdArray elem inner n) [] = if elem.isByte && inner.isEmpty then .value (.str n) n
      else .items (getPythonTypeName elem inner) false n (inner.prod * elem.size) := rfl

theorem CType.encode_stdArray {elem : CType} {inner : List Nat} {n : Nat} (hn : n ≠ 0) (v : PyVal) :
    (CType.stdArray elem inner n).encode v =
      encodeArray (encodeDeclared (fun x => elem.encode x) inner) v := by
  rw [CType.encode, if_neg hn, padTo, Nat.zero_sub, zeros, List.replicate_zero, List.append_nil]

/-- A coded member is given no more than its size, and less only for the byte of an empty array. -/
theorem advance_le {t : CType} {extents : List Nat} (hcoded : t.Coded extents) :
    (emission t extents).advance ≤ extents.prod * t.size := by
  rcases extents with - | ⟨n, inner⟩
  · rw [List.prod_nil, Nat.one_mul]
    cases t with
    | scalar s => exact le_rfl
    | cls sub ms => exact le_rfl
    | stdArray elem inner n =>
        rw [emission_stdArray, CType.size]
        split
        · next hbyte =>
            obtain ⟨hbyte, hinner⟩ := Bool.and_eq_true_iff.1 hbyte
            rw [List.isEmpty_iff.1 hinner, CType.size_of_isByte hbyte]
            split <;> simp [Emission.advance, *]
        · split
          · next hn => simp [Emission.advance, hn]
          · exact le_rfl
  · rw [emission_array, List.prod_cons, (CType.coded_array.1 hcoded).1, Nat.mul_one]
    split
    · next hbyte =>
        rw [CType.size_of_isByte hbyte, Nat.mul_one]
        exact le_rfl
    · exact le_rfl

/-- A `std::array` without elements packs nothing. -/
theorem pack_stdArray_zero (M : PyModule) (callP : PyVal → Option (List UInt8)) {elem : CType}
    {inner : List Nat} {v : PyVal} (hv : (CType.stdArray elem inner 0).HasType v) :
    (emission (.stdArray elem inner 0) []).pack M callP v = some [] ∧
      (emission (.stdArray elem inner 0) []).advance = 0 ∧
      padTo (CType.stdArray elem inner 0).size [] = (CType.stdArray elem inner 0).encode v := by
  unfold CType.HasType at hv
  rw [emission_stdArray]
  cases hbyte : elem.isByte && inner.isEmpty with
  | true =>
      rw [hbyte] at hv
      obtain ⟨b, rfl, hb⟩ := hv.eq_bytes
      obtain rfl := List.length_eq_zero_iff.1 hb
      exact ⟨pack_str M callP [], rfl, rfl⟩
  | false =>
      rw [hbyte] at hv
      obtain ⟨xs, rfl, hxs, -⟩ := hv.eq_list
      obtain rfl := List.length_eq_zero_iff.1 hxs
      exact ⟨rfl, Nat.zero_mul _, rfl⟩

/-- Everything else that is coded packs its object. -/
theorem pack_whole {t : CType} {extents : List Nat} {v : PyVal} (hcoded : t.Coded extents)
    (hunsigned : t.isSignedEnum extents = false)
    (hne : ∀ elem inner, t = .stdArray elem inner 0 → extents ≠ [])
    (hcalls : ∀ c, t.object = some c → Calls M callP callU c)
    (hv : Declared t.isByte (fun x => t.HasType x) extents v) :
    (emission t extents).pack M callP v = some (encodeDeclared (fun x => t.encode x) extents v) ∧
      (emission t extents).advance = extents.prod * t.size := by
  rcases extents with - | ⟨n, inner⟩
  · rw [List.prod_nil, Nat.one_mul]
    cases t with
    | scalar s =>
        have hpack := (Scalar.pack_unpack hcoded (fun _ t ht => by subst ht; exact hunsigned) hv).1
        exact ⟨
          by simp [emission, Emission.pack, PyStruct.pack, hpack, encodeDeclared, CType.encode],
          rfl⟩
    | cls sub ms => exact ⟨(hcalls (sub, ms) rfl).pack v hv, rfl⟩
    | stdArray elem inner n =>
        have hn : n ≠ 0 := by
          rintro rfl
          exact hne elem inner rfl rfl
        obtain ⟨rfl, hkind⟩ := hcoded.resolve_left hn
        have hv : HoldsArray (elem.isByte && true) (fun x => elem.HasType x) n v := hv
        have hencode : encodeDeclared (fun x => (CType.stdArray elem [] n).encode x) [] v =
            encodeArray (fun x => elem.encode x) v := CType.encode_stdArray hn v
        rw [emission_stdArray, hencode, CType.size, if_neg hn, List.prod_nil, Nat.one_mul]
        cases hbyte : elem.isByte with
        | true =>
            rw [hbyte] at hv
            obtain ⟨b, rfl, rfl⟩ := hv.eq_bytes
            rw [CType.size_of_isByte hbyte, Nat.mul_one]
            exact ⟨pack_str M callP b, rfl⟩
        | false =>
            rw [hbyte] at hv hkind
            obtain ⟨xs, rfl, -, hxs⟩ := hv.eq_list
            obtain ⟨sub, ms, rfl⟩ := CType.eq_cls_of_isClass hkind
            exact ⟨(hcalls (sub, ms) (if_neg hn)).packItems hxs, rfl⟩
  · obtain ⟨hinner, hkind⟩ := CType.coded_array.1 hcoded
    have hprod : (n :: inner).prod = n := by rw [List.prod_cons, hinner, Nat.mul_one]
    have hv : HoldsArray t.isByte (fun x => t.HasType x) (n :: inner).prod v := hv
    rw [hprod] at hv ⊢
    rw [emission_array]
    cases hbyte : t.isByte with
    | true =>
        rw [hbyte] at hv
        obtain ⟨b, rfl, rfl⟩ := hv.eq_bytes
        rw [CType.size_of_isByte hbyte, Nat.mul_one]
        exact ⟨pack_str M callP b, rfl⟩
    | false =>
        rw [hbyte] at hv hkind
        obtain ⟨xs, rfl, -, hxs⟩ := hv.eq_list
        obtain ⟨sub, ms, rfl⟩ := CType.eq_cls_of_isClass hkind
        exact ⟨(hcalls (sub, ms) rfl).packItems hxs, rfl⟩

/-- **A member is packed as its object**, but for the byte of an empty array. -/
theorem pack_emission {t : CType} {extents : List Nat} {v : PyVal} (hcoded : t.Coded extents)
    (hunsigned : t.isSignedEnum extents = false) (hw : t.WellFormed)
    (hcalls : ∀ c, t.object = some c → Calls M callP callU c)
    (hv : Declared t.isByte (fun x => t.HasType x) extents v) :
    ∃ c, (emission t extents).pack M callP v = some c ∧ c.length = (emission t extents).advance ∧
      c ++ zeros (extents.prod * t.size - (emission t extents).advance) =
        encodeDeclared (fun x => t.encode x) extents v := by
  by_cases hempty : ∃ elem inner, t = .stdArray elem inner 0 ∧ extents = []
  · obtain ⟨elem, inner, rfl, rfl⟩ := hempty
    obtain ⟨hpack, hadvance, hpad⟩ := pack_stdArray_zero M callP hv
    refine ⟨[], hpack, hadvance.symm, ?_⟩
    rw [hadvance, List.prod_nil, Nat.one_mul]
    exact hpad
  · obtain ⟨hpack, hadvance⟩ := pack_whole hcoded hunsigned
      (fun elem inner ht he => hempty ⟨elem, inner, ht, he⟩) hcalls hv
    refine ⟨_, hpack, ?_, ?_⟩
    · rw [hadvance]
      exact length_encodeDeclared hv fun x hx => CType.length_encode hw hx
    · rw [hadvance, Nat.sub_self]
      exact List.append_nil _

/-- **A member is read from any object with its value.** -/
theorem unpack_emission {t : CType} {extents : List Nat} {v : PyVal} {offset : Nat}
    (hcoded : t.Coded extents) (hunsigned : t.isSignedEnum extents = false)
    (hcalls : ∀ c, t.object = some c → Calls M callP callU c)
    (hv : Declared t.isByte (fun x => t.HasType x) extents v)
    (hrep : RepDeclared (fun x => t.Represents x) t.size extents v
      (PyModule.slice data offset (extents.prod * t.size)))
    (hlen : offset + extents.prod * t.size ≤ data.length) :
    (emission t extents).unpack M callU data offset =
      some (v, offset + (emission t extents).advance) := by
  rcases extents with - | ⟨n, inner⟩
  · rw [List.prod_nil, Nat.one_mul] at hrep hlen
    cases t with
    | scalar s =>
        have hunpack :=
          (Scalar.pack_unpack hcoded (fun _ t ht => by subst ht; exact hunsigned) hv).2
        have hrep : PyModule.slice data offset s.size = s.encode v := hrep
        have hlen : offset + s.size ≤ data.length := hlen
        have hsize := Scalar.size_code hcoded
        rw [← hsize] at hrep hlen
        rw [← hrep] at hunpack
        rw [emission, ← hsize]
        exact unpack_code hunpack hlen
    | cls sub ms => exact (hcalls (sub, ms) rfl).unpackNested hv hrep
    | stdArray elem inner n =>
        have hv : HoldsArray (elem.isByte && inner.isEmpty)
          (Declared elem.isByte (fun x => elem.HasType x) inner) n v := hv
        have hrep : (CType.stdArray elem inner n).Represents v
          (PyModule.slice data offset (CType.stdArray elem inner n).size) := hrep
        have hlen : offset + (CType.stdArray elem inner n).size ≤ data.length := hlen
        rw [emission_stdArray]
        by_cases hn : n = 0
        · subst hn
          cases hbyte : elem.isByte && inner.isEmpty with
          | true =>
              rw [hbyte] at hv
              obtain ⟨b, rfl, hb⟩ := hv.eq_bytes
              obtain rfl := List.length_eq_zero_iff.1 hb
              have hoff : offset + 0 ≤ data.length := (Nat.le_add_right offset _).trans hlen
              exact unpack_str (b := []) M callU List.take_zero hoff
          | false =>
              rw [hbyte] at hv
              obtain ⟨xs, rfl, hxs, -⟩ := hv.eq_list
              obtain rfl := List.length_eq_zero_iff.1 hxs
              simp [Emission.unpack, PyModule.unpackItems, Emission.advance]
        · obtain ⟨rfl, hkind⟩ := hcoded.resolve_left hn
          have hv : HoldsArray (elem.isByte && true) (fun x => elem.HasType x) n v := hv
          rw [CType.Represents, if_neg hn] at hrep
          rw [CType.size, if_neg hn] at hrep hlen
          rw [List.prod_nil, Nat.one_mul] at hrep hlen ⊢
          cases hbyte : elem.isByte with
          | true =>
              rw [hbyte] at hv
              obtain ⟨b, rfl, rfl⟩ := hv.eq_bytes
              rw [CType.size_of_isByte hbyte, Nat.mul_one] at hrep hlen
              exact unpack_str M callU hrep hlen
          | false =>
              rw [hbyte] at hv hkind
              obtain ⟨xs, rfl, rfl, hxs⟩ := hv.eq_list
              obtain ⟨sub, ms, rfl⟩ := CType.eq_cls_of_isClass hkind
              exact (hcalls (sub, ms) (if_neg hn)).unpack_items false hxs hrep
  · obtain ⟨hinner, hkind⟩ := CType.coded_array.1 hcoded
    have hprod : (n :: inner).prod = n := by rw [List.prod_cons, hinner, Nat.mul_one]
    have hv : HoldsArray t.isByte (fun x => t.HasType x) (n :: inner).prod v := hv
    rw [hprod] at hv hrep hlen
    rw [emission_array]
    cases hbyte : t.isByte with
    | true =>
        rw [hbyte] at hv
        obtain ⟨b, rfl, rfl⟩ := hv.eq_bytes
        rw [CType.size_of_isByte hbyte, Nat.mul_one] at hrep hlen
        exact unpack_str M callU hrep hlen
    | false =>
        rw [hbyte] at hv hkind
        obtain ⟨xs, rfl, rfl, hxs⟩ := hv.eq_list
        obtain ⟨sub, ms, rfl⟩ := CType.eq_cls_of_isClass hkind
        exact (hcalls (sub, ms) rfl).unpack_items true hxs hrep

end

/-! ## All members -/

theorem get_of_mem {attrs : List (String × PyVal)} (h : (attrs.map Prod.fst).Nodup) {name : String}
    {v : PyVal} (hmem : (name, v) ∈ attrs) : PyModule.get attrs name = some v := by
  unfold PyModule.get
  induction attrs with
  | nil => exact absurd hmem (by simp)
  | cons first rest ih =>
      obtain ⟨hfirst, hrest⟩ := List.nodup_cons.1 h
      rcases List.mem_cons.1 hmem with rfl | hmem
      · exact List.lookup_cons_self
      · have hne : name ≠ first.1 := by
          rintro rfl
          exact hfirst (List.mem_map.2 ⟨_, hmem, rfl⟩)
        rw [List.lookup_cons, beq_eq_false_iff_ne.2 hne]
        exact ih hrest hmem

theorem zeros_append (m n : Nat) : zeros m ++ zeros n = zeros (m + n) :=
  List.replicate_append_replicate

theorem Members.names_of_haveTypes : ∀ {ms : Members} {attrs : List (String × PyVal)},
    ms.HaveTypes attrs → attrs.map Prod.fst = ms.names
  | .nil, [], _ => rfl
  | .nil, _ :: _, h => h.elim
  | .cons _ _ _ _ _, [], h => h.elim
  | .cons _ _ _ _ rest, (_, _) :: attrs, h => by
      rw [List.map_cons, rest.names_of_haveTypes h.2.2, h.1]
      rfl

section

variable {M : PyModule} {callP : PyVal → Option (List UInt8)}
  {callU : String → List UInt8 → Option PyVal} {data : List UInt8}

/-- **The members are packed one after another as their objects, with zeros between them.** -/
theorem Members.pack_encode {env : List (String × PyVal)} {size : Nat} : ∀ (ms : Members)
    {attrs : List (String × PyVal)} {off cur : Nat}, ms.WellFormed → ms.Visible →
    (∀ m ∈ ms.list, m.type.Coded m.extents ∧ m.type.isSignedEnum m.extents = false) →
    (∀ m ∈ ms.list, ∀ c, m.type.object = some c → Calls M callP callU c) →
    ms.HaveTypes attrs → (∀ a ∈ attrs, PyModule.get env a.1 = some a.2) →
    cur ≤ off → ms.endOffset off ≤ size →
    ms.pack M callP env size off cur =
      some (zeros (off - cur) ++ (ms.encode off attrs ++ zeros (size - ms.endOffset off)))
  | .nil, [], off, cur, _, _, _, _, _, _, hcur, hsize => by
      rw [Members.endOffset] at hsize ⊢
      rw [Members.pack, Members.encode_nil, List.nil_append, zeros_append]
      congr 2
      omega
  | .nil, _ :: _, _, _, _, _, _, _, h, _, _, _ => h.elim
  | .cons _ _ _ _ _, [], _, _, _, _, _, _, h, _, _, _ => h.elim
  | .cons name access t extents rest, (name', v) :: attrs, off, cur, hw, hvisible, hcoded, hcalls,
      h, henv, hcur, hsize => by
      obtain ⟨rfl, hv, hrest⟩ := h
      obtain ⟨hext, hwt, hwrest⟩ := hw
      obtain rfl : access = .accessible := hvisible _ List.mem_cons_self
      obtain ⟨htcoded, hunsigned⟩ := hcoded _ List.mem_cons_self
      obtain ⟨c, hpack, hlen, hobject⟩ := pack_emission htcoded hunsigned hwt
        (hcalls _ List.mem_cons_self) hv
      have hplace := le_roundUp off (CType.align_pos hwt)
      have hnext := rest.pack_encode hwrest
        (fun m hm => hvisible m (List.mem_cons_of_mem _ hm))
        (fun m hm => hcoded m (List.mem_cons_of_mem _ hm))
        (fun m hm => hcalls m (List.mem_cons_of_mem _ hm)) hrest
        (fun a ha => henv a (List.mem_cons_of_mem _ ha))
        (Nat.add_le_add_left (advance_le htcoded) (roundUp off t.align)) hsize
      have hgap : zeros (roundUp off t.align - cur) =
          zeros (off - cur) ++ zeros (roundUp off t.align - off) := by
        rw [zeros_append]
        congr 1
        omega
      rw [Members.pack, henv _ List.mem_cons_self, Option.bind_some, hpack, Option.bind_some,
        Nat.max_eq_right (hcur.trans hplace), hnext, Option.map_some, Members.encode, ← hobject,
        Members.endOffset, hgap, Nat.add_sub_add_left]
      simp only [List.append_assoc]

/-- Skipping padding that is there. -/
theorem skipTo_offset {l : PyModule.Locals} {cur offset : Nat} (hl : l.offset = cur)
    (hcur : cur ≤ offset) (hlen : offset ≤ data.length) :
    Gen.skipTo data cur offset l = some ⟨l.fields, offset⟩ := by
  unfold Gen.skipTo
  split
  · have hroom : l.offset + (offset - cur) = offset := by omega
    simp [Gen.readItem, unpackFrom, Item.size, hroom, hlen]
  · have heq : offset = l.offset := by omega
    rw [heq]

/-- **The members are read one after another from any object.** -/
theorem Members.read_represents {size : Nat} (hdata : data.length = size) : ∀ (ms : Members)
    {attrs : List (String × PyVal)} {off cur : Nat} {l : PyModule.Locals}, ms.WellFormed →
    ms.Visible →
    (∀ m ∈ ms.list, m.type.Coded m.extents ∧ m.type.isSignedEnum m.extents = false) →
    (∀ m ∈ ms.list, ∀ c, m.type.object = some c → Calls M callP callU c) →
    ms.HaveTypes attrs → ms.Represent off attrs data → l.offset = cur → cur ≤ off →
    ms.endOffset off ≤ size →
    ms.read M callU data size off cur l = some ⟨attrs.reverse ++ l.fields, size⟩
  | .nil, [], off, cur, l, _, _, _, _, _, _, hl, hcur, hsize => by
      rw [Members.endOffset] at hsize
      exact skipTo_offset hl (hcur.trans hsize) hdata.ge
  | .nil, _ :: _, _, _, _, _, _, _, _, h, _, _, _, _ => h.elim
  | .cons _ _ _ _ _, [], _, _, _, _, _, _, _, h, _, _, _, _ => h.elim
  | .cons name access t extents rest, (name', v) :: attrs, off, cur, l, hw, hvisible, hcoded,
      hcalls, h, hrep, hl, hcur, hsize => by
      obtain ⟨rfl, hv, hrest⟩ := h
      obtain ⟨hext, hwt, hwrest⟩ := hw
      rw [Members.Represent] at hrep
      obtain rfl : access = .accessible := hvisible _ List.mem_cons_self
      obtain ⟨htcoded, hunsigned⟩ := hcoded _ List.mem_cons_self
      have hplace := le_roundUp off (CType.align_pos hwt)
      have hend : roundUp off t.align + extents.prod * t.size ≤ data.length :=
        (rest.le_endOffset _ hwrest).trans (hsize.trans hdata.ge)
      have hskip := skipTo_offset hl (hcur.trans hplace) ((Nat.le_add_right _ _).trans hend)
      have hread := unpack_emission htcoded hunsigned (hcalls _ List.mem_cons_self) hv hrep.1 hend
      have hmember : Gen.readMember M callU data name' (emission t extents)
          ⟨l.fields, roundUp off t.align⟩ = some ⟨(name', v) :: l.fields,
            roundUp off t.align + (emission t extents).advance⟩ := by
        rw [Gen.readMember, hread]
        rfl
      have hnext : rest.read M callU data size (roundUp off t.align + extents.prod * t.size)
          (roundUp off t.align + (emission t extents).advance)
          ⟨(name', v) :: l.fields, roundUp off t.align + (emission t extents).advance⟩ =
          some ⟨attrs.reverse ++ ((name', v) :: l.fields), size⟩ :=
        rest.read_represents hdata hwrest
          (fun m hm => hvisible m (List.mem_cons_of_mem _ hm))
          (fun m hm => hcoded m (List.mem_cons_of_mem _ hm))
          (fun m hm => hcalls m (List.mem_cons_of_mem _ hm)) hrest hrep.2 rfl
          (Nat.add_le_add_left (advance_le htcoded) (roundUp off t.align)) hsize
      rw [Members.read, hskip, Option.bind_some, hmember, Option.bind_some,
        Nat.max_eq_right (hcur.trans hplace), hnext]
      simp

end

/-! ## Classes -/

theorem Members.fields_names : ∀ {ms : Members}, ms.Visible → ms.fields.map Prod.fst = ms.names
  | .nil, _ => rfl
  | .cons name access t extents rest, h => by
      obtain rfl : access = .accessible := h _ List.mem_cons_self
      rw [Members.fields, List.map_cons, rest.fields_names fun m hm =>
        h m (List.mem_cons_of_mem _ hm)]
      rfl

/-- The constructor gets every field, in the order of the members. -/
theorem construct_reverse {c : PyClass} {attrs : List (String × PyVal)} {offset : Nat}
    (hnames : c.fields.map Prod.fst = attrs.map Prod.fst) (hnodup : (attrs.map Prod.fst).Nodup) :
    PyModule.construct c ⟨attrs.reverse, offset⟩ = some (.obj c.name attrs) := by
  have hget : ∀ a ∈ attrs, PyModule.get attrs.reverse a.1 = some a.2 := by
    intro a ha
    refine get_of_mem ?_ (List.mem_reverse.2 ha)
    rw [List.map_reverse]
    exact List.nodup_reverse.2 hnodup
  have hmap : ∀ (fields : List (String × TypeName)) (attrs' : List (String × PyVal)),
      fields.map Prod.fst = attrs'.map Prod.fst → (∀ a ∈ attrs', a ∈ attrs) →
      (fields.mapM fun f => (PyModule.get attrs.reverse f.1).map fun v => (f.1, v)) =
        some attrs' := by
    intro fields
    induction fields with
    | nil =>
        intro attrs' h _
        obtain rfl := List.map_eq_nil_iff.1 h.symm
        rfl
    | cons f fields ih =>
        intro attrs' h hsub
        rcases attrs' with - | ⟨a, attrs'⟩
        · exact absurd h (by simp)
        · obtain ⟨hname, hrest⟩ := List.cons.inj h
          have ha := hget a (hsub a List.mem_cons_self)
          have hname : f.1 = a.1 := hname
          rw [List.mapM_cons, ih attrs' hrest fun b hb => hsub b (List.mem_cons_of_mem _ hb), hname,
            ha]
          rfl
  rw [PyModule.construct, hmap c.fields attrs hnames fun a ha => ha]
  rfl

theorem Members.list_eq_nil {ms : Members} (h : ms.Visible) (hf : ms.fields = []) :
    ms.list = [] := by
  cases ms with
  | nil => rfl
  | cons name access t extents rest =>
      obtain rfl : access = .accessible := h _ List.mem_cons_self
      exact absurd hf (by simp [Members.fields])

section

variable {M : PyModule} {callP : PyVal → Option (List UInt8)}
  {callU : String → List UInt8 → Option PyVal} {name : String} {ms : Members}
  {attrs : List (String × PyVal)}

theorem Members.Encodable.fields_ne_nil (h : ms.Encodable) : ms.fields ≠ [] :=
  fun hf => h.nonempty (Members.list_eq_nil h.visible hf)

/-- `pack_wire` of an encodable class. -/
theorem runPack_encode (hms : ms.Encodable) (hw : (CType.cls name ms).WellFormed)
    (hcalls : ∀ m ∈ ms.list, ∀ c, m.type.object = some c → Calls M callP callU c)
    (hattrs : ms.HaveTypes attrs) :
    M.runPack callP attrs (generateClass name ms).packWire =
      some ((CType.cls name ms).encode (.obj name attrs)) := by
  have hnodup : (attrs.map Prod.fst).Nodup := by
    rw [Members.names_of_haveTypes hattrs]
    exact hw.2
  rw [runPack_generateClass _ _ _ hms.fields_ne_nil,
    ms.pack_encode hw.1 hms.visible (fun m hm => ⟨hms.coded m hm, hms.unsigned m hm⟩) hcalls hattrs
      (fun a ha => get_of_mem hnodup ha) le_rfl Members.endOffset_le_size]
  have hlen := Members.length_encode 0 hw.1 hattrs
  rw [CType.encode, padTo, hlen]
  rfl

/-- The local variables of `unpack_wire` of an encodable class, at the end. -/
theorem runUnpack_represents (hms : ms.Encodable) (hflush : ms.FlushesValues name)
    (hw : (CType.cls name ms).WellFormed)
    (hcalls : ∀ m ∈ ms.list, ∀ c, m.type.object = some c → Calls M callP callU c)
    (hattrs : ms.HaveTypes attrs) {bs : List UInt8}
    (hrep : (CType.cls name ms).Represents (.obj name attrs) bs) :
    M.runUnpack callU bs (generateClass name ms).unpackWire ⟨[], 0⟩ =
      some ⟨attrs.reverse, (CType.cls name ms).size⟩ := by
  rw [CType.Represents] at hrep
  have hread : ms.read M callU bs (CType.cls name ms).size 0 0 ⟨[], 0⟩ =
      some ⟨attrs.reverse ++ [], (CType.cls name ms).size⟩ :=
    ms.read_represents hrep.1 hw.1 hms.visible (fun m hm => ⟨hms.coded m hm, hms.unsigned m hm⟩)
      hcalls hattrs hrep.2 rfl le_rfl Members.endOffset_le_size
  rw [runUnpack_generateClass _ _ _ hms.fields_ne_nil (hflush.resolve_left hms.fields_ne_nil),
    hread, List.append_nil]

/-- The object made of them. -/
theorem construct_generateClass (hms : ms.Encodable) (hw : (CType.cls name ms).WellFormed)
    (hattrs : ms.HaveTypes attrs) (offset : Nat) :
    PyModule.construct (generateClass name ms) ⟨attrs.reverse, offset⟩ =
      some (.obj name attrs) := by
  have hnames := Members.names_of_haveTypes hattrs
  rw [construct_reverse, generateClass_name]
  · rw [generateClass_fields, Members.fields_names hms.visible, hnames]
  · rw [hnames]
    exact hw.2

end

/-- **The codec of a type whose class objects are all encodable**: `pack_wire` writes the object
    with zero padding, and `unpack_wire` reads the value from any object that has it. -/
theorem calls_of_encodable {M : PyModule} : ∀ (k : Nat) {c : String × Members},
    M.Provides (CType.cls c.1 c.2).classes →
    (∀ d ∈ (CType.cls c.1 c.2).classes, d.2.FlushesValues d.1) →
    (∀ ms ∈ (CType.cls c.1 c.2).instances, ms.Encodable) → (CType.cls c.1 c.2).WellFormed →
    (CType.cls c.1 c.2).depth ≤ k → Calls M (M.packWire k) (M.unpackWire k) c
  | 0, _, _, _, _, _, hdepth => by simp [CType.depth] at hdepth
  | k + 1, (name, ms), hprovides, hflush, hencodable, hw, hdepth => by
      have hhere := CType.mem_classes name ms
      have hfound := hprovides _ hhere
      have hms := hencodable ms (CType.mem_instances name ms)
      have hcalls : ∀ m ∈ ms.list, ∀ c, m.type.object = some c →
          Calls M (M.packWire k) (M.unpackWire k) c := by
        intro m hm c hc
        obtain ⟨hinst, hcls, hlt, hwf⟩ := CType.object_subset hm (hms.visible m hm) hc
        exact calls_of_encodable k (fun d hd => hprovides d (hcls hd))
          (fun d hd => hflush d (hcls hd)) (fun ms' hms' => hencodable ms' (hinst hms')) (hwf hw)
          (Nat.le_of_lt_succ (hlt.trans_le hdepth))
      refine ⟨hfound, ?_, ?_⟩
      · intro v hv
        obtain ⟨attrs, rfl, hattrs⟩ := CType.eq_obj_of_hasType hv
        rw [PyModule.packWire, hfound, Option.bind_some, runPack_encode hms hw hcalls hattrs]
      · intro v bs hv hrep
        obtain ⟨attrs, rfl, hattrs⟩ := CType.eq_obj_of_hasType hv
        rw [PyModule.unpackWire, hfound, Option.bind_some,
          runUnpack_represents hms (hflush _ hhere) hw hcalls hattrs hrep, Option.bind_some,
          construct_generateClass hms hw hattrs]

end ReflectPytest
