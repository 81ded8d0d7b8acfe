import ReflectPytest.Library.PyStruct

set_option autoImplicit false

/-! # C++ payload types

The types a payload struct is made of, their layout by the x86-64 System V ABI, and the bytes of
their objects. A value is written as the Python value that stands for it: an array of bytes is a
`bytes`, any other array is the flat list of its elements, and a class is an object with one
attribute for each member. What has no Python counterpart at all is its object representation. -/

namespace ReflectPytest

open PyStruct LittleEndian

/-! ## Scalars -/

/-- The integral types. -/
inductive IntType where
  | bool | char | schar | uchar | char8 | char16 | char32 | wchar
  | short | ushort | int | uint | long | ulong | longlong | ulonglong | int128 | uint128
  deriving DecidableEq, Repr

namespace IntType

/-- `sizeof`. -/
def size : IntType → Nat
  | .bool | .char | .schar | .uchar | .char8 => 1
  | .char16 | .short | .ushort => 2
  | .char32 | .wchar | .int | .uint => 4
  | .long | .ulong | .longlong | .ulonglong => 8
  | .int128 | .uint128 => 16

/-- `std::is_signed_v`. -/
def isSigned : IntType → Bool
  | .char | .schar | .wchar | .short | .int | .long | .longlong | .int128 => true
  | _ => false

/-- The values of the type. -/
def InRange (t : IntType) (i : Int) : Prop :=
  if t = .bool then 0 ≤ i ∧ i ≤ 1
  else if t.isSigned then -(256 ^ t.size / 2) ≤ i ∧ i < 256 ^ t.size / 2
  else 0 ≤ i ∧ i < 256 ^ t.size

instance (t : IntType) (i : Int) : Decidable (t.InRange i) := by
  unfold InRange
  infer_instance

theorem inRange_zero (t : IntType) : t.InRange 0 := by
  cases t <;> decide

end IntType

/-- The types of a member that are neither arrays nor classes. `half` is any floating-point type of
    two bytes, an enumeration is its identifier with its underlying type, and `other` is a pointer,
    a union or anything else that is neither arithmetic nor an enumeration. -/
inductive Scalar where
  | arith (t : IntType)
  | half | float | double | longDouble
  | enum (name : String) (underlying : IntType)
  | other (size align : Nat)
  deriving DecidableEq, Repr

namespace Scalar

/-- `sizeof`. -/
def size : Scalar → Nat
  | .arith t => t.size
  | .half => 2
  | .float => 4
  | .double => 8
  | .longDouble => 16
  | .enum _ t => t.size
  | .other size _ => size

/-- `alignof`. -/
def align : Scalar → Nat
  | .other _ align => align
  | s => s.size

/-- `uint8_t`, `char` and `int8_t`, whose arrays are byte strings. -/
def isByte : Scalar → Bool
  | .arith .uchar | .arith .char | .arith .schar => true
  | _ => false

/-- The Python values of the type. -/
def HasValue : Scalar → PyVal → Prop
  | .arith .bool, .bool _ => True
  | .arith .bool, _ => False
  | .arith t, .int i => t.InRange i
  | .float, .float32 _ => True
  | .double, .float64 _ => True
  | .enum _ t, .int i => t.InRange i
  | .half, .bytes b => b.length = 2
  | .longDouble, .bytes b => b.length = 16
  | .other size _, .bytes b => b.length = size
  | _, _ => False

/-- The bytes of an object with the given value. -/
def encode (s : Scalar) : PyVal → List UInt8
  | .bool b => [if b then 1 else 0]
  | .int i => bytesOfInt s.size i
  | .float32 x => bytesOf 4 x.toNat
  | .float64 x => bytesOf 8 x.toNat
  | .bytes b => b
  | _ => []

/-- A value of the type. -/
def default : Scalar → PyVal
  | .arith .bool => .bool false
  | .arith _ => .int 0
  | .half => .bytes (List.replicate 2 0)
  | .float => .float32 0
  | .double => .float64 0
  | .longDouble => .bytes (List.replicate 16 0)
  | .enum _ _ => .int 0
  | .other size _ => .bytes (List.replicate size 0)

theorem default_hasValue (s : Scalar) : s.HasValue s.default := by
  cases s with
  | arith t =>
      cases t
      case bool => trivial
      all_goals exact IntType.inRange_zero _
  | enum name t => exact t.inRange_zero
  | half => exact List.length_replicate
  | longDouble => exact List.length_replicate
  | other size align => exact List.length_replicate
  | float => trivial
  | double => trivial

theorem length_encode {s : Scalar} {v : PyVal} (h : s.HasValue v) :
    (s.encode v).length = s.size := by
  unfold HasValue at h
  split at h
  · rfl
  · exact h.elim
  · exact length_bytesOfInt _ _
  · exact length_bytesOf _ _
  · exact length_bytesOf _ _
  · exact length_bytesOfInt _ _
  · exact h
  · exact h
  · exact h
  · exact h.elim

end Scalar

/-! ## Types -/

/-- Whether `access_context::current()` sees the member. Hidden are private and protected members,
    and the subobjects of base classes. -/
inductive Access where
  | accessible | hidden
  deriving DecidableEq, Repr

mutual

/-- The type of a member without its array extents. A class carries its Python name. The elements of
    a `std::array` may themselves be C arrays. -/
inductive CType where
  | scalar (s : Scalar)
  | stdArray (elem : CType) (extents : List Nat) (n : Nat)
  | cls (name : String) (members : Members)

/-- The members of a class in order; `T name[n₁][n₂]` has the extents `[n₁, n₂]`. -/
inductive Members where
  | nil
  | cons (name : String) (access : Access) (type : CType) (extents : List Nat) (rest : Members)

end

/-- `uint8_t`, `char` or `int8_t`. -/
def CType.isByte : CType → Bool
  | .scalar s => s.isByte
  | _ => false

/-! ## Layout -/

/-- The next multiple of `align`. -/
def roundUp (off align : Nat) : Nat := (off + align - 1) / align * align

theorem le_roundUp (off : Nat) {align : Nat} (h : 0 < align) : off ≤ roundUp off align := by
  have hdiv := Nat.div_add_mod (off + align - 1) align
  have hmod := Nat.mod_lt (off + align - 1) h
  unfold roundUp
  rw [Nat.mul_comm]
  omega

mutual

/-- `alignof`. -/
def CType.align : CType → Nat
  | .scalar s => s.align
  | .stdArray e _ n => if n = 0 then 1 else e.align
  | .cls _ ms => ms.align

def Members.align : Members → Nat
  | .nil => 1
  | .cons _ _ t _ rest => max t.align rest.align

end

mutual

/-- `sizeof`; an array of no elements and a class of no members still take one byte. -/
def CType.size : CType → Nat
  | .scalar s => s.size
  | .stdArray e extents n => if n = 0 then 1 else n * (extents.prod * e.size)
  | .cls _ ms => max 1 (roundUp (ms.endOffset 0) ms.align)

/-- Where the members end when they start at `off`: each at the next multiple of its alignment. -/
def Members.endOffset : Members → Nat → Nat
  | .nil, off => off
  | .cons _ _ t extents rest, off => rest.endOffset (roundUp off t.align + extents.prod * t.size)

end

/-! ## Values -/

/-- An array of `n` elements: of bytes, or of values of which `P` holds. -/
def HoldsArray (isByte : Bool) (P : PyVal → Prop) (n : Nat) : PyVal → Prop
  | .bytes b => isByte = true ∧ b.length = n
  | .list xs => isByte = false ∧ xs.length = n ∧ ∀ x ∈ xs, P x
  | _ => False

theorem HoldsArray.eq_bytes {P : PyVal → Prop} {n : Nat} {v : PyVal} (h : HoldsArray true P n v) :
    ∃ b, v = .bytes b ∧ b.length = n := by
  cases v with
  | bytes b => exact ⟨b, rfl, h.2⟩
  | list xs => exact absurd h.1.symm Bool.false_ne_true
  | _ => exact h.elim

theorem HoldsArray.eq_list {P : PyVal → Prop} {n : Nat} {v : PyVal} (h : HoldsArray false P n v) :
    ∃ xs, v = .list xs ∧ xs.length = n ∧ ∀ x ∈ xs, P x := by
  cases v with
  | bytes b => exact absurd h.1 Bool.false_ne_true
  | list xs => exact ⟨xs, rfl, h.2⟩
  | _ => exact h.elim

/-- A value declared with the given extents. -/
def Declared (isByte : Bool) (P : PyVal → Prop) (extents : List Nat) : PyVal → Prop :=
  if extents = [] then P else HoldsArray isByte P extents.prod

mutual

/-- The Python values of a type. -/
def CType.HasType : CType → PyVal → Prop
  | .scalar s, v => s.HasValue v
  | .stdArray e extents n, v =>
      HoldsArray (e.isByte && extents.isEmpty)
        (Declared e.isByte (fun x => e.HasType x) extents) n v
  | .cls name ms, .obj name' attrs => name' = name ∧ ms.HaveTypes attrs
  | .cls _ _, _ => False

def Members.HaveTypes : Members → List (String × PyVal) → Prop
  | .nil, [] => True
  | .cons name _ t extents rest, (name', v) :: attrs =>
      name' = name ∧ Declared t.isByte (fun x => t.HasType x) extents v ∧ rest.HaveTypes attrs
  | _, _ => False

end

/-! ## Objects -/

/-- `n` zero bytes. -/
def zeros (n : Nat) : List UInt8 := List.replicate n 0

/-- Zeros up to `n` bytes after `bs`. -/
def padTo (n : Nat) (bs : List UInt8) : List UInt8 := bs ++ zeros (n - bs.length)

/-- The elements of an array one after another. -/
def encodeArray (enc : PyVal → List UInt8) : PyVal → List UInt8
  | .bytes b => b
  | .list xs => xs.flatMap enc
  | _ => []

/-- A value declared with the given extents. -/
def encodeDeclared (enc : PyVal → List UInt8) (extents : List Nat) : PyVal → List UInt8 :=
  if extents = [] then enc else encodeArray enc

mutual

/-- The object with the given value whose padding is zero. -/
def CType.encode : CType → PyVal → List UInt8
  | .scalar s, v => s.encode v
  | .stdArray e extents n, v =>
      padTo (if n = 0 then 1 else 0)
        (encodeArray (encodeDeclared (fun x => e.encode x) extents) v)
  | .cls name ms, .obj _ attrs => padTo (CType.cls name ms).size (ms.encode 0 attrs)
  | .cls _ _, _ => []

/-- The members from the offset `off` on, each after the padding up to its own offset. -/
def Members.encode : Members → Nat → List (String × PyVal) → List UInt8
  | .cons _ _ t extents rest, off, (_, v) :: attrs =>
      zeros (roundUp off t.align - off) ++ encodeDeclared (fun x => t.encode x) extents v ++
        rest.encode (roundUp off t.align + extents.prod * t.size) attrs
  | _, _, _ => []

end

@[simp] theorem Members.encode_nil (off : Nat) (attrs : List (String × PyVal)) :
    Members.nil.encode off attrs = [] := by
  rw [Members.encode]
  simp

/-- Consecutive elements of `size` bytes each. -/
def RepList (R : PyVal → List UInt8 → Prop) (size : Nat) : List PyVal → List UInt8 → Prop
  | [], bs => bs = []
  | x :: xs, bs => R x (bs.take size) ∧ RepList R size xs (bs.drop size)

/-- The elements of an array. -/
def RepArray (R : PyVal → List UInt8 → Prop) (size : Nat) : PyVal → List UInt8 → Prop
  | .bytes b, bs => bs = b
  | .list xs, bs => RepList R size xs bs
  | _, _ => False

/-- A value declared with the given extents. -/
def RepDeclared (R : PyVal → List UInt8 → Prop) (size : Nat) (extents : List Nat) :
    PyVal → List UInt8 → Prop :=
  if extents = [] then R else RepArray R size

mutual

/-- `bs` is an object of the type with the given value, whatever its padding bytes are. -/
def CType.Represents : CType → PyVal → List UInt8 → Prop
  | .scalar s, v, bs => bs = s.encode v
  | .stdArray e extents n, v, bs =>
      if n = 0 then bs.length = 1
      else RepArray (RepDeclared (fun x => e.Represents x) e.size extents)
        (extents.prod * e.size) v bs
  | .cls name ms, .obj _ attrs, bs =>
      bs.length = (CType.cls name ms).size ∧ ms.Represent 0 attrs bs
  | .cls _ _, _, _ => False

/-- Each member is represented at its offset. -/
def Members.Represent : Members → Nat → List (String × PyVal) → List UInt8 → Prop
  | .cons _ _ t extents rest, off, (_, v) :: attrs, bs =>
      RepDeclared (fun x => t.Represents x) t.size extents v
        ((bs.drop (roundUp off t.align)).take (extents.prod * t.size)) ∧
        rest.Represent (roundUp off t.align + extents.prod * t.size) attrs bs
  | .nil, _, [], _ => True
  | _, _, _, _ => False

end

/-! ## What the language guarantees -/

def Members.names : Members → List String
  | .nil => []
  | .cons name _ _ _ rest => name :: rest.names

mutual

/-- Alignments and extents of C arrays are positive, and the members of a class have different
    names. -/
def CType.WellFormed : CType → Prop
  | .scalar s => 0 < s.align
  | .stdArray e extents _ => (∀ k ∈ extents, 0 < k) ∧ e.WellFormed
  | .cls _ ms => ms.WellFormed ∧ ms.names.Nodup

def Members.WellFormed : Members → Prop
  | .nil => True
  | .cons _ _ t extents rest => (∀ k ∈ extents, 0 < k) ∧ t.WellFormed ∧ rest.WellFormed

end

mutual

instance CType.decidableWellFormed : (t : CType) → Decidable t.WellFormed
  | .scalar s => inferInstanceAs (Decidable (0 < s.align))
  | .stdArray e extents _ =>
      have := e.decidableWellFormed
      inferInstanceAs (Decidable ((∀ k ∈ extents, 0 < k) ∧ e.WellFormed))
  | .cls _ ms =>
      have := ms.decidableWellFormed
      inferInstanceAs (Decidable (ms.WellFormed ∧ ms.names.Nodup))

instance Members.decidableWellFormed : (ms : Members) → Decidable ms.WellFormed
  | .nil => isTrue trivial
  | .cons _ _ t extents rest =>
      have := t.decidableWellFormed
      have := rest.decidableWellFormed
      inferInstanceAs (Decidable ((∀ k ∈ extents, 0 < k) ∧ t.WellFormed ∧ rest.WellFormed))

end

theorem Members.align_pos (ms : Members) : 0 < ms.align := by
  cases ms with
  | nil => exact Nat.one_pos
  | cons name access t extents rest =>
      exact lt_of_lt_of_le rest.align_pos (Nat.le_max_right _ _)

theorem CType.align_pos : ∀ {t : CType}, t.WellFormed → 0 < t.align
  | .scalar _, h => h
  | .stdArray e extents n, h => by
      unfold CType.align
      split
      · exact Nat.one_pos
      · exact CType.align_pos h.2
  | .cls _ ms, _ => by
      unfold CType.align
      exact ms.align_pos

theorem Members.le_endOffset : ∀ {ms : Members} (off : Nat), ms.WellFormed → off ≤ ms.endOffset off
  | .nil, off, _ => by
      unfold Members.endOffset
      exact le_rfl
  | .cons _ _ t extents rest, off, h => by
      unfold Members.endOffset
      exact (le_roundUp off (CType.align_pos h.2.1)).trans
        ((Nat.le_add_right _ _).trans (rest.le_endOffset _ h.2.2))

theorem Members.endOffset_le_size {name : String} {ms : Members} :
    ms.endOffset 0 ≤ (CType.cls name ms).size := by
  unfold CType.size
  exact (le_roundUp _ ms.align_pos).trans (Nat.le_max_right _ _)

/-! ## The size of an object -/

@[simp] theorem length_zeros (n : Nat) : (zeros n).length = n := List.length_replicate

theorem length_padTo {n : Nat} {bs : List UInt8} (h : bs.length ≤ n) : (padTo n bs).length = n := by
  simp [padTo]
  omega

theorem length_encodeArray {isByte : Bool} {P : PyVal → Prop} {enc : PyVal → List UInt8}
    {n size : Nat} {v : PyVal} (h : HoldsArray isByte P n v) (hbyte : isByte = true → size = 1)
    (henc : ∀ x, P x → (enc x).length = size) : (encodeArray enc v).length = n * size := by
  cases v with
  | bytes b => rw [hbyte h.1, Nat.mul_one]; exact h.2
  | list xs =>
      obtain ⟨-, rfl, hxs⟩ := h
      induction xs with
      | nil => simp [encodeArray]
      | cons x xs ih =>
          have hrest := ih fun y hy => hxs y (List.mem_cons_of_mem _ hy)
          simp only [encodeArray, List.flatMap_cons, List.length_append, List.length_cons]
            at hrest ⊢
          rw [hrest, henc x (hxs x List.mem_cons_self), Nat.succ_mul]
          exact Nat.add_comm _ _
  | _ => exact h.elim

theorem CType.size_of_isByte {t : CType} (h : t.isByte = true) : t.size = 1 := by
  unfold CType.isByte at h
  split at h
  · unfold Scalar.isByte at h
    split at h <;> first | rfl | exact absurd h Bool.false_ne_true
  · exact absurd h Bool.false_ne_true

theorem length_encodeDeclared {t : CType} {extents : List Nat} {v : PyVal}
    (h : Declared t.isByte (fun x => t.HasType x) extents v)
    (henc : ∀ x, t.HasType x → (t.encode x).length = t.size) :
    (encodeDeclared (fun x => t.encode x) extents v).length = extents.prod * t.size := by
  unfold Declared at h
  unfold encodeDeclared
  split at h
  · next hnil => rw [if_pos hnil, hnil, List.prod_nil, Nat.one_mul, henc v h]
  · next hne => rw [if_neg hne, length_encodeArray h CType.size_of_isByte henc]

mutual

theorem CType.length_encode : ∀ {t : CType} {v : PyVal}, t.WellFormed → t.HasType v →
    (t.encode v).length = t.size
  | .scalar s, v, _, h => by
      unfold CType.HasType at h
      unfold CType.encode CType.size
      exact Scalar.length_encode h
  | .stdArray e extents n, v, hw, h => by
      unfold CType.HasType at h
      unfold CType.encode CType.size
      have hlen : (encodeArray (encodeDeclared (fun x => e.encode x) extents) v).length =
          n * (extents.prod * e.size) := by
        refine length_encodeArray h (fun hbyte => ?_) fun x hx =>
          length_encodeDeclared hx fun y hy => CType.length_encode hw.2 hy
        obtain ⟨hbyte, hnil⟩ := Bool.and_eq_true_iff.1 hbyte
        rw [List.isEmpty_iff.1 hnil, CType.size_of_isByte hbyte]
        rfl
      split
      · next hn =>
          refine length_padTo ?_
          rw [hlen, hn, Nat.zero_mul]
          exact Nat.zero_le 1
      · rw [padTo, Nat.zero_sub, zeros, List.replicate_zero, List.append_nil]
        exact hlen
  | .cls name ms, .obj name' attrs, hw, h => by
      unfold CType.HasType at h
      unfold CType.encode
      refine length_padTo ?_
      rw [Members.length_encode 0 hw.1 h.2, Nat.sub_zero]
      exact Members.endOffset_le_size
  | .cls _ _, .bool _, _, h => h.elim
  | .cls _ _, .int _, _, h => h.elim
  | .cls _ _, .float32 _, _, h => h.elim
  | .cls _ _, .float64 _, _, h => h.elim
  | .cls _ _, .bytes _, _, h => h.elim
  | .cls _ _, .list _, _, h => h.elim

theorem Members.length_encode : ∀ {ms : Members} {attrs : List (String × PyVal)} (off : Nat),
    ms.WellFormed → ms.HaveTypes attrs → (ms.encode off attrs).length = ms.endOffset off - off
  | .nil, [], off, _, _ => by simp [Members.encode, Members.endOffset]
  | .cons _ _ t extents rest, (_, v) :: attrs, off, hw, h => by
      unfold Members.HaveTypes at h
      unfold Members.encode Members.endOffset
      have hplace := le_roundUp off (CType.align_pos hw.2.1)
      have hrest := rest.le_endOffset (roundUp off t.align + extents.prod * t.size) hw.2.2
      rw [List.length_append, List.length_append, length_zeros,
        length_encodeDeclared h.2.1 fun y hy => CType.length_encode hw.2.1 hy,
        Members.length_encode _ hw.2.2 h.2.2]
      omega

end

/-! ## Zero padding is one of the paddings -/

theorem repList_flatMap {R : PyVal → List UInt8 → Prop} {enc : PyVal → List UInt8} {size : Nat}
    {xs : List PyVal} (h : ∀ x ∈ xs, R x (enc x) ∧ (enc x).length = size) :
    RepList R size xs (xs.flatMap enc) := by
  induction xs with
  | nil => rfl
  | cons x xs ih =>
      obtain ⟨hx, hlen⟩ := h x List.mem_cons_self
      rw [List.flatMap_cons]
      refine ⟨?_, ?_⟩
      · rw [List.take_left' hlen]
        exact hx
      · rw [List.drop_left' hlen]
        exact ih fun y hy => h y (List.mem_cons_of_mem _ hy)

theorem repArray_encodeArray {isByte : Bool} {P : PyVal → Prop} {R : PyVal → List UInt8 → Prop}
    {enc : PyVal → List UInt8} {n size : Nat} {v : PyVal} (h : HoldsArray isByte P n v)
    (henc : ∀ x, P x → R x (enc x) ∧ (enc x).length = size) :
    RepArray R size v (encodeArray enc v) := by
  cases v with
  | bytes b => rfl
  | list xs => exact repList_flatMap fun x hx => henc x (h.2.2 x hx)
  | _ => exact h.elim

theorem repDeclared_encodeDeclared {t : CType} {extents : List Nat} {v : PyVal}
    (h : Declared t.isByte (fun x => t.HasType x) extents v)
    (henc : ∀ x, t.HasType x → t.Represents x (t.encode x) ∧ (t.encode x).length = t.size) :
    RepDeclared (fun x => t.Represents x) t.size extents v
      (encodeDeclared (fun x => t.encode x) extents v) := by
  unfold Declared at h
  unfold encodeDeclared RepDeclared
  split at h
  · next hnil =>
      rw [if_pos hnil, if_pos hnil]
      exact (henc v h).1
  · next hne =>
      rw [if_neg hne, if_neg hne]
      exact repArray_encodeArray h henc

mutual

/-- **The zero-padded object is an object with the value.** -/
theorem CType.represents_encode : ∀ {t : CType} {v : PyVal}, t.WellFormed → t.HasType v →
    t.Represents v (t.encode v)
  | .scalar s, v, _, h => by
      unfold CType.Represents CType.encode
      rfl
  | .stdArray e extents n, v, hw, h => by
      have hlen := CType.length_encode (t := .stdArray e extents n) hw h
      unfold CType.HasType at h
      unfold CType.Represents
      split
      · next hn =>
          rw [hlen, CType.size, if_pos hn]
      · next hn =>
          have hencode : (CType.stdArray e extents n).encode v =
              encodeArray (encodeDeclared (fun x => e.encode x) extents) v := by
            rw [CType.encode, if_neg hn, padTo, Nat.zero_sub, zeros, List.replicate_zero,
              List.append_nil]
          rw [hencode]
          refine repArray_encodeArray h fun x hx => ⟨?_, ?_⟩
          · exact repDeclared_encodeDeclared hx fun y hy =>
              ⟨CType.represents_encode hw.2 hy, CType.length_encode hw.2 hy⟩
          · exact length_encodeDeclared hx fun y hy => CType.length_encode hw.2 hy
  | .cls name ms, .obj name' attrs, hw, h => by
      have hlen := CType.length_encode (t := .cls name ms) hw h
      unfold CType.HasType at h
      unfold CType.Represents
      refine ⟨hlen, ?_⟩
      unfold CType.encode padTo
      exact Members.represent_encode 0 [] _ rfl hw.1 h.2
  | .cls _ _, .bool _, _, h => h.elim
  | .cls _ _, .int _, _, h => h.elim
  | .cls _ _, .float32 _, _, h => h.elim
  | .cls _ _, .float64 _, _, h => h.elim
  | .cls _ _, .bytes _, _, h => h.elim
  | .cls _ _, .list _, _, h => h.elim

theorem Members.represent_encode : ∀ {ms : Members} {attrs : List (String × PyVal)} (off : Nat)
    (before after : List UInt8), before.length = off → ms.WellFormed → ms.HaveTypes attrs →
    ms.Represent off attrs (before ++ ms.encode off attrs ++ after)
  | .nil, [], _, _, _, _, _, _ => by
      unfold Members.Represent
      trivial
  | .cons _ _ t extents rest, (_, v) :: attrs, off, before, after, hbefore, hw, h => by
      unfold Members.HaveTypes at h
      have hplace := le_roundUp off (CType.align_pos hw.2.1)
      have hlen := length_encodeDeclared h.2.1 fun y hy => CType.length_encode hw.2.1 hy
      unfold Members.Represent Members.encode
      refine ⟨?_, ?_⟩
      · have hskip :
            (before ++ zeros (roundUp off t.align - off)).length = roundUp off t.align := by
          rw [List.length_append, length_zeros, hbefore]
          omega
        simp only [List.append_assoc]
        rw [← List.append_assoc before, List.drop_left' hskip, List.take_left' hlen]
        exact repDeclared_encodeDeclared h.2.1 fun y hy =>
          ⟨CType.represents_encode hw.2.1 hy, CType.length_encode hw.2.1 hy⟩
      · have hnext := Members.represent_encode (roundUp off t.align + extents.prod * t.size)
          (before ++ (zeros (roundUp off t.align - off) ++
            encodeDeclared (fun x => t.encode x) extents v)) after (by
              rw [List.length_append, List.length_append, length_zeros, hlen, hbefore]
              omega) hw.2.2 h.2.2
        simpa only [List.append_assoc] using hnext

end

end ReflectPytest
