import ReflectPytest.Library.LittleEndian

set_option autoImplicit false

/-! # Python's `struct` module, little-endian and without alignment

Python values, and `struct.pack`, `struct.unpack_from` and `struct.calcsize` for formats that start
with `<`. A format is the list of its items. `none` is an exception. -/

namespace PyStruct

open LittleEndian

/-- A Python value. Floats are kept as the bit pattern of their `f` or `d` encoding; a `dict` is the
    list of its entries, and an object the name of its class with its attributes. -/
inductive PyVal where
  | bool (b : Bool)
  | int (i : Int)
  | float32 (x : BitVec 32)
  | float64 (x : BitVec 64)
  | bytes (b : List UInt8)
  | str (s : String)
  | list (xs : List PyVal)
  | tuple (xs : List PyVal)
  | dict (entries : List (PyVal × PyVal))
  | obj (cls : String) (attrs : List (String × PyVal))

open Float.Model Float.Model.UnpackedFloat in
/-- The number in a format; a finite one that is too large there overflows. -/
def roundTo (format : Format) : UnpackedFloat → Option (BitVec format.numBits)
  | .finite sign mantissa exponent _ =>
      let x := pack format (round format sign mantissa exponent)
      if x = pack format (.infinity sign) then none else some x
  | x => some (pack format x)

namespace PyVal

/-- `bool(v)`. -/
def truthy : PyVal → Bool
  | .bool b => b
  | .int i => decide (i ≠ 0)
  | .float32 x => decide (x.toNat % 2 ^ 31 ≠ 0)
  | .float64 x => decide (x.toNat % 2 ^ 63 ≠ 0)
  | .bytes b => !b.isEmpty
  | .str s => !s.isEmpty
  | .list xs => !xs.isEmpty
  | .tuple xs => !xs.isEmpty
  | .dict entries => !entries.isEmpty
  | .obj _ _ => true

/-- `operator.index(v)`. -/
def index? : PyVal → Option Int
  | .int i => some i
  | .bool b => some (if b then 1 else 0)
  | _ => none

/-- `list(v)`. -/
def iter? : PyVal → Option (List PyVal)
  | .bytes b => some (b.map fun x => .int x.toNat)
  | .str s => some (s.toList.map fun c => .str c.toString)
  | .list xs => some xs
  | .tuple xs => some xs
  | .dict entries => some (entries.map Prod.fst)
  | _ => none

open Float.Model Float.Model.UnpackedFloat in
/-- `float(v)` for a number; an `int` too large for a double overflows. -/
def float? : PyVal → Option UnpackedFloat
  | .float32 x => some (unpack .binary32 x)
  | .float64 x => some (unpack .binary64 x)
  | v => v.index?.bind fun i =>
      let x := ofInt .binary64 i
      (roundTo .binary64 x).map fun _ => x

end PyVal

/-! ## Format codes -/

/-- The codes of single values, under their letters; `bool` is the code `?`. -/
inductive Code where
  | bool | b | B | h | H | i | I | q | Q | f | d
  deriving DecidableEq, Repr

namespace Code

/-- The standard size. -/
def size : Code → Nat
  | .bool | .b | .B => 1
  | .h | .H => 2
  | .i | .I | .f => 4
  | .q | .Q | .d => 8

theorem size_pos (c : Code) : 0 < c.size := by
  cases c <;> decide

/-- The codes of signed integers. -/
def isSigned : Code → Bool
  | .b | .h | .i | .q => true
  | _ => false

/-- The integers an integer code takes. -/
def InRange (c : Code) (i : Int) : Prop :=
  if c.isSigned then -(256 ^ c.size / 2) ≤ i ∧ i < 256 ^ c.size / 2 else 0 ≤ i ∧ i < 256 ^ c.size

instance (c : Code) (i : Int) : Decidable (c.InRange i) := by
  unfold InRange
  infer_instance

/-- Encode one value. -/
def pack (c : Code) (v : PyVal) : Option (List UInt8) :=
  match c, v with
  | .bool, v => some [if v.truthy then 1 else 0]
  | .f, .float32 x => some (bytesOf 4 x.toNat)
  | .d, .float64 x => some (bytesOf 8 x.toNat)
  | .f, v => v.float?.bind fun x => (roundTo .binary32 x).map fun y => bytesOf 4 y.toNat
  | .d, v => v.float?.bind fun x => (roundTo .binary64 x).map fun y => bytesOf 8 y.toNat
  | c, v => v.index?.bind fun i => if c.InRange i then some (bytesOfInt c.size i) else none

/-- Decode as many bytes as the code is long. -/
def unpack (c : Code) (bs : List UInt8) : PyVal :=
  match c with
  | .bool => .bool (decide (value bs ≠ 0))
  | .f => .float32 (BitVec.ofNat 32 (value bs))
  | .d => .float64 (BitVec.ofNat 64 (value bs))
  | c => .int (if c.isSigned then intValue bs else value bs)

/-- The codes of integers. -/
def isInt : Code → Bool
  | .bool | .f | .d => false
  | _ => true

theorem pack_int {c : Code} (hc : c.isInt = true) (i : Int) :
    c.pack (.int i) = if c.InRange i then some (bytesOfInt c.size i) else none := by
  cases c <;> first | rfl | exact absurd hc Bool.false_ne_true

theorem unpack_int {c : Code} (hc : c.isInt = true) (bs : List UInt8) :
    c.unpack bs = .int (if c.isSigned then intValue bs else value bs) := by
  cases c <;> first | rfl | exact absurd hc Bool.false_ne_true

theorem length_pack {c : Code} {v : PyVal} {bs : List UInt8} (h : c.pack v = some bs) :
    bs.length = c.size := by
  unfold pack at h
  split at h
  · obtain rfl := Option.some.inj h
    rfl
  · obtain rfl := Option.some.inj h
    exact length_bytesOf 4 _
  · obtain rfl := Option.some.inj h
    exact length_bytesOf 8 _
  · obtain ⟨x, -, hx⟩ := Option.bind_eq_some_iff.1 h
    obtain ⟨y, -, rfl⟩ := Option.map_eq_some_iff.1 hx
    exact length_bytesOf 4 _
  · obtain ⟨x, -, hx⟩ := Option.bind_eq_some_iff.1 h
    obtain ⟨y, -, rfl⟩ := Option.map_eq_some_iff.1 hx
    exact length_bytesOf 8 _
  · obtain ⟨i, -, hi⟩ := Option.bind_eq_some_iff.1 h
    split at hi
    · obtain rfl := Option.some.inj hi
      exact length_bytesOfInt _ _
    · exact absurd hi (by simp)

/-- An integer in range is decoded to itself. -/
theorem unpack_bytesOfInt {c : Code} (hc : c.isInt = true) {i : Int} (hi : c.InRange i) :
    c.unpack (bytesOfInt c.size i) = .int i := by
  rw [unpack_int hc]
  unfold InRange at hi
  split at hi
  · next hs =>
      have hhalf : ((256 : Int) ^ c.size) / 2 ≤ (256 ^ c.size + 1) / 2 := by omega
      rw [if_pos hs, intValue_bytesOfInt hi.1 (lt_of_lt_of_le hi.2 hhalf)]
  · next hs => rw [if_neg hs, value_bytesOfInt_of_range hi.1 hi.2]

end Code

/-! ## Formats -/

/-- An item of a format: `n` pad bytes `nx`, a byte string `ns`, or a value. -/
inductive Item where
  | pad (n : Nat)
  | str (n : Nat)
  | code (c : Code)
  deriving DecidableEq, Repr

/-- The bytes an item takes. -/
def Item.size : Item → Nat
  | .pad n => n
  | .str n => n
  | .code c => c.size

/-- `struct.calcsize`. -/
def calcsize (fmt : List Item) : Nat := (fmt.map Item.size).sum

/-- `ns` truncates or pads with zeros. -/
def fit (n : Nat) (b : List UInt8) : List UInt8 := b.take n ++ List.replicate (n - b.length) 0

/-- `struct.pack(fmt, *args)`. -/
@[simp] def pack : List Item → List PyVal → Option (List UInt8)
  | [], [] => some []
  | .pad n :: fmt, args => (pack fmt args).map (List.replicate n 0 ++ ·)
  | .str n :: fmt, .bytes b :: args => (pack fmt args).map (fit n b ++ ·)
  | .code c :: fmt, v :: args => (c.pack v).bind fun x => (pack fmt args).map (x ++ ·)
  | _, _ => none

/-- The values of `fmt` at the start of `bs`. -/
def unpack : List Item → List UInt8 → List PyVal
  | [], _ => []
  | .pad n :: fmt, bs => unpack fmt (bs.drop n)
  | .str n :: fmt, bs => .bytes (bs.take n) :: unpack fmt (bs.drop n)
  | .code c :: fmt, bs => c.unpack (bs.take c.size) :: unpack fmt (bs.drop c.size)

/-- `struct.unpack_from(fmt, data, offset)`. -/
def unpackFrom (fmt : List Item) (data : List UInt8) (offset : Nat) : Option (List PyVal) :=
  if offset + calcsize fmt ≤ data.length then some (unpack fmt (data.drop offset)) else none

@[simp] theorem calcsize_nil : calcsize [] = 0 := rfl

@[simp] theorem calcsize_append (fmt fmt' : List Item) :
    calcsize (fmt ++ fmt') = calcsize fmt + calcsize fmt' := by
  simp [calcsize]

@[simp] theorem calcsize_singleton (item : Item) : calcsize [item] = item.size := by
  simp [calcsize]

theorem length_fit (n : Nat) (b : List UInt8) : (fit n b).length = n := by
  simp [fit]
  omega

theorem fit_of_length {n : Nat} {b : List UInt8} (h : b.length = n) : fit n b = b := by
  subst h
  simp [fit]

/-- A format is packed from left to right: pad bytes at the end follow whatever comes before. -/
theorem pack_append_pad (fmt : List Item) (args : List PyVal) (n : Nat) :
    pack (fmt ++ [.pad n]) args = (pack fmt args).map (· ++ List.replicate n 0) := by
  induction fmt generalizing args with
  | nil => cases args <;> simp [pack]
  | cons item fmt ih =>
      cases item with
      | pad k => simp [pack, ih, Function.comp_def]
      | str k =>
          rcases args with - | ⟨v, args⟩
          · simp [pack]
          · cases v <;> simp [pack, ih, Function.comp_def]
      | code c =>
          rcases args with - | ⟨v, args⟩
          · simp [pack]
          · cases hv : c.pack v <;> simp [pack, ih, hv, Function.comp_def]

/-- A format that ends in a value does not pack nothing. -/
theorem pack_append_nil {item : Item} (hitem : ∀ n, item ≠ .pad n) (fmt : List Item) :
    pack (fmt ++ [item]) [] = none := by
  induction fmt with
  | nil =>
      cases item with
      | pad n => exact absurd rfl (hitem n)
      | _ => rfl
  | cons first fmt ih => cases first <;> simp [pack, ih]

/-- The encoding of one more value follows, too. -/
theorem pack_append_one {item : Item} (hitem : ∀ n, item ≠ .pad n) (fmt : List Item)
    (args : List PyVal) (v : PyVal) :
    pack (fmt ++ [item]) (args ++ [v]) =
      (pack fmt args).bind fun p => (pack [item] [v]).map (p ++ ·) := by
  induction fmt generalizing args with
  | nil =>
      rcases args with - | ⟨u, args⟩
      · simp
      · cases item with
        | pad n => exact absurd rfl (hitem n)
        | str n => cases u <;> cases args <;> simp [pack]
        | code c =>
            have hlong : ∀ x, pack [] (args ++ [x]) = none := by
              intro x
              cases args <;> rfl
            simp [pack, hlong]
  | cons first fmt ih =>
      cases first with
      | pad k =>
          simp only [List.cons_append, pack, ih]
          cases pack fmt args <;> cases pack [item] [v] <;> simp
      | str k =>
          rcases args with - | ⟨u, args⟩
          · cases v <;> simp [pack, pack_append_nil hitem]
          · cases u <;> simp only [List.cons_append, pack, ih, Option.bind_none]
            cases pack fmt args <;> cases pack [item] [v] <;> simp
      | code c =>
          rcases args with - | ⟨u, args⟩
          · simp [pack, pack_append_nil hitem]
          · simp only [List.cons_append, pack, ih]
            cases c.pack u <;> cases pack fmt args <;> cases pack [item] [v] <;> simp

theorem unpack_append (fmt fmt' : List Item) (bs : List UInt8) :
    unpack (fmt ++ fmt') bs = unpack fmt bs ++ unpack fmt' (bs.drop (calcsize fmt)) := by
  induction fmt generalizing bs with
  | nil => simp [unpack]
  | cons item fmt ih =>
      cases item <;> simp [unpack, ih, calcsize, Item.size, List.drop_drop]

/-- How many values a format takes. -/
def arity : List Item → Nat
  | [] => 0
  | .pad _ :: fmt => arity fmt
  | _ :: fmt => arity fmt + 1

@[simp] theorem arity_nil : arity [] = 0 := rfl

@[simp] theorem arity_append (fmt fmt' : List Item) :
    arity (fmt ++ fmt') = arity fmt + arity fmt' := by
  induction fmt with
  | nil => simp
  | cons item fmt ih => cases item <;> simp [arity, ih] <;> omega

@[simp] theorem length_unpack (fmt : List Item) (bs : List UInt8) :
    (unpack fmt bs).length = arity fmt := by
  induction fmt generalizing bs with
  | nil => rfl
  | cons item fmt ih => cases item <;> simp [unpack, arity, ih]

/-- A format is read from left to right. -/
theorem unpackFrom_append (fmt fmt' : List Item) (data : List UInt8) (offset : Nat) :
    unpackFrom (fmt ++ fmt') data offset = (unpackFrom fmt data offset).bind fun vals =>
      (unpackFrom fmt' data (offset + calcsize fmt)).map (vals ++ ·) := by
  unfold unpackFrom
  rw [calcsize_append, ← Nat.add_assoc]
  by_cases hall : offset + calcsize fmt + calcsize fmt' ≤ data.length
  · rw [if_pos hall, if_pos (by omega), Option.bind_some, if_pos hall, unpack_append,
      List.drop_drop]
    rfl
  · rw [if_neg hall]
    split <;> rfl

end PyStruct
