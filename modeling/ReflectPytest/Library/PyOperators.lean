import Mathlib
import ReflectPytest.Library.PyStruct

set_option autoImplicit false

/-! # Python's operators on numbers and sequences

`a + b`, `v[i:j]`, and `struct.unpack_from` at any offset. `none` is an exception. -/

namespace PyStruct

open LittleEndian

/-! ## Slices -/

/-- The position of a slice index in a sequence of `n` items; a negative one counts from the end. -/
def sliceIndex (n : Nat) (i : Int) : Nat := min n (if i < 0 then (i + n).toNat else i.toNat)

/-- `xs[i:j]`. -/
def sliceList {α : Type} (xs : List α) (i j : Int) : List α :=
  (xs.take (sliceIndex xs.length j)).drop (sliceIndex xs.length i)

theorem sliceList_ofNat {α : Type} (xs : List α) (offset n : Nat) :
    sliceList xs offset (offset + n : Nat) = (xs.drop offset).take n := by
  have hindex : ∀ k : Nat, sliceIndex xs.length k = min xs.length k := by
    intro k
    rw [sliceIndex, if_neg (by omega), Int.toNat_natCast]
  have htake : xs.take (min xs.length (offset + n)) = xs.take (offset + n) := by
    rw [← List.take_take, List.take_of_length_le (by simp)]
  rw [sliceList, hindex, hindex, htake, List.drop_take]
  rcases Nat.le_total offset xs.length with hle | hle
  · rw [Nat.min_eq_right hle, Nat.add_sub_cancel_left]
  · rw [Nat.min_eq_left hle, List.drop_length, List.drop_of_length_le hle, List.take_nil,
      List.take_nil]

theorem sliceList_nil {α : Type} (i j : Int) : sliceList ([] : List α) i j = [] := by
  simp [sliceList]

namespace PyVal

/-- `v[i:j]`. -/
def slice? (v i j : PyVal) : Option PyVal :=
  i.index?.bind fun i => j.index?.bind fun j =>
    match v with
    | .bytes b => some (.bytes (sliceList b i j))
    | .str s => some (.str (String.ofList (sliceList s.toList i j)))
    | .list xs => some (.list (sliceList xs i j))
    | .tuple xs => some (.tuple (sliceList xs i j))
    | _ => none

theorem slice?_bytes (b : List UInt8) (offset n : Nat) :
    (bytes b).slice? (.int offset) (.int (offset + n : Nat)) =
      some (.bytes ((b.drop offset).take n)) :=
  congrArg (fun s => some (bytes s)) (sliceList_ofNat b offset n)

/-! ## Sums -/

open Float.Model in
/-- `a + b` for numbers. -/
def add? (a b : PyVal) : Option PyVal :=
  match a.index?, b.index? with
  | some i, some j => some (.int (i + j))
  | _, _ => a.float?.bind fun x => b.float?.map fun y =>
      .float64 (UnpackedFloat.pack .binary64 (UnpackedFloat.add .binary64 x y))

@[simp] theorem add?_int (i j : Int) : (int i).add? (.int j) = some (.int (i + j)) := rfl

/-- A sum with an integer is an integer, or a float if the other number was one. -/
theorem add?_int_right {v w : PyVal} {n : Int} (h : v.add? (.int n) = some w) :
    (∃ i, v.index? = some i ∧ w = .int (i + n)) ∨ v.index? = none ∧ ∃ x, w = .float64 x := by
  unfold add? at h
  cases hv : v.index? with
  | some i =>
      rw [hv] at h
      exact .inl ⟨i, rfl, (Option.some.inj h).symm⟩
  | none =>
      rw [hv] at h
      obtain ⟨x, -, hx⟩ := Option.bind_eq_some_iff.1 h
      obtain ⟨y, -, rfl⟩ := Option.map_eq_some_iff.1 hx
      exact .inr ⟨rfl, _, rfl⟩

/-- An integer or a float. -/
def IsNumber (v : PyVal) : Prop := v.index?.isSome = true ∨ v.float?.isSome = true

theorem not_isNumber_list (xs : List PyVal) : ¬ (list xs).IsNumber := by
  simp [IsNumber, index?, float?]

theorem not_isNumber_obj (cls : String) (attrs : List (String × PyVal)) :
    ¬ (obj cls attrs).IsNumber := by
  simp [IsNumber, index?, float?]

/-- Only numbers have a sum, and it is one. -/
theorem isNumber_of_add? {v w x : PyVal} (h : v.add? w = some x) :
    v.IsNumber ∧ w.IsNumber ∧ x.IsNumber := by
  unfold add? at h
  split at h
  · next i j hi hj =>
      obtain rfl := Option.some.inj h
      exact ⟨.inl (by rw [hi]; rfl), .inl (by rw [hj]; rfl), .inl rfl⟩
  · obtain ⟨y, hy, h⟩ := Option.bind_eq_some_iff.1 h
    obtain ⟨z, hz, rfl⟩ := Option.map_eq_some_iff.1 h
    exact ⟨.inr (by rw [hy]; rfl), .inr (by rw [hz]; rfl), .inr rfl⟩

end PyVal

/-! ## Negative zero -/

section

open Float.Model Float.Model.UnpackedFloat

/-- `-0.0`. -/
def negativeZero : BitVec 64 := packedZero .binary64 .negative

/-- No minus sign. -/
def Unsigned : UnpackedFloat → Prop
  | .infinity s | .zero s | .finite s _ _ _ => s = .positive
  | .notANumber => True

theorem Unsigned.unpackSign_pack {spec : Format} {x : UnpackedFloat} (h : Unsigned x) :
    unpackSign (UnpackedFloat.pack spec x) = 0#1 := by
  unfold UnpackedFloat.pack
  split
  · exact unpackSign_packComponents ..
  · next s =>
      obtain rfl : s = .positive := h
      exact unpackSign_packComponents ..
  · next s =>
      obtain rfl : s = .positive := h
      exact unpackSign_packComponents ..
  · next s m e hm =>
      obtain rfl : s = .positive := h
      dsimp only
      split
      · exact unpackSign_packComponents ..
      · split
        · exact unpackSign_packComponents ..
        · exact unpackSign_packComponents ..

theorem unsigned_ofInt (spec : Format) {n : Int} (hn : 0 ≤ n) :
    Unsigned (UnpackedFloat.ofInt spec n) := by
  unfold UnpackedFloat.ofInt UnpackedFloat.normalize
  split
  · next h =>
      rw [Int.compare_eq_lt] at h
      omega
  · rfl
  · simp only [UnpackedFloat.round, UnpackedFloat.roundWithAccuracy]
    split <;> rfl

theorem Unsigned.add_zero {spec : Format} {x : UnpackedFloat} (h : Unsigned x) :
    Unsigned (UnpackedFloat.add spec (.zero .negative) x) := by
  cases x with
  | zero s =>
      obtain rfl : s = .positive := h
      exact rfl
  | _ => exact h

/-- A sum of `-0.0` with an integer that is not negative has lost the sign. -/
theorem add?_negativeZero {n : Int} (hn : 0 ≤ n) :
    (PyVal.float64 negativeZero).add? (.int n) ≠ some (.float64 negativeZero) := by
  intro h
  simp only [PyVal.add?, PyVal.index?, PyVal.float?, Option.bind_some, Option.map_map,
    Option.map_eq_some_iff, Function.comp_apply, PyVal.float64.injEq] at h
  obtain ⟨x, -, h⟩ := h
  have hzero : UnpackedFloat.unpack .binary64 negativeZero = .zero .negative := rfl
  have hsum : Unsigned (UnpackedFloat.add .binary64 (.zero .negative) (.ofInt .binary64 n)) :=
    (unsigned_ofInt .binary64 hn).add_zero
  have hsign : @unpackSign .binary64 negativeZero = 0#1 := by
    rw [← h, hzero]
    exact hsum.unpackSign_pack
  exact absurd hsign (by decide)

end

/-! ## Reading -/

/-- `struct.unpack_from(fmt, data, offset)`; a negative offset counts from the end of the buffer,
    which the format must not cross. -/
def unpackFrom? (fmt : List Item) (data offset : PyVal) : Option (List PyVal) :=
  match data, offset.index? with
  | .bytes b, some i =>
      if 0 ≤ i then unpackFrom fmt b i.toNat
      else if i + calcsize fmt ≤ 0 ∧ 0 ≤ i + b.length then unpackFrom fmt b (i + b.length).toNat
      else none
  | _, _ => none

theorem unpackFrom?_bytes (fmt : List Item) (b : List UInt8) (offset : Nat) :
    unpackFrom? fmt (.bytes b) (.int offset) = unpackFrom fmt b offset := by
  simp [unpackFrom?, PyVal.index?]

/-- What is read are byte strings no longer than the format, and numbers. -/
theorem mem_unpack {fmt : List Item} {bs : List UInt8} {v : PyVal} (h : v ∈ unpack fmt bs) :
    (∃ b, v = .bytes b ∧ b.length ≤ calcsize fmt) ∨ v.IsNumber := by
  have hcons : ∀ (item : Item) (fmt : List Item),
      calcsize (item :: fmt) = item.size + calcsize fmt :=
    fun item fmt => calcsize_append [item] fmt
  induction fmt generalizing bs with
  | nil => exact absurd h (by simp [unpack])
  | cons item fmt ih =>
      have hrest : ∀ n, v ∈ unpack fmt (bs.drop n) →
          (∃ b, v = .bytes b ∧ b.length ≤ calcsize (item :: fmt)) ∨ v.IsNumber := by
        intro n hv
        refine (ih hv).imp_left ?_
        rintro ⟨b, hb, hlen⟩
        exact ⟨b, hb, hlen.trans (hcons item fmt ▸ Nat.le_add_left _ _)⟩
      cases item with
      | pad n => exact hrest n h
      | str n =>
          rcases List.mem_cons.1 h with rfl | h
          · refine .inl ⟨_, rfl, ?_⟩
            rw [hcons]
            exact (List.length_take_le n bs).trans (Nat.le_add_right _ _)
          · exact hrest n h
      | code c =>
          rcases List.mem_cons.1 h with rfl | h
          · cases c <;> first | exact .inr (.inl rfl) | exact .inr (.inr rfl)
          · exact hrest c.size h

theorem unpack_of_unpackFrom? {fmt : List Item} {data offset : PyVal} {vals : List PyVal}
    (h : unpackFrom? fmt data offset = some vals) : ∃ bs, vals = unpack fmt bs := by
  have hread : ∀ (b : List UInt8) (k : Nat), unpackFrom fmt b k = some vals →
      ∃ bs, vals = unpack fmt bs := by
    intro b k hk
    unfold unpackFrom at hk
    split at hk
    · exact ⟨_, (Option.some.inj hk).symm⟩
    · exact absurd hk (by simp)
  unfold unpackFrom? at h
  split at h
  · split at h
    · exact hread _ _ h
    · split at h
      · exact hread _ _ h
      · exact absurd h (by simp)
  · exact absurd h (by simp)

/-! ## Nothing to read -/

/-- Not a buffer, or an empty one. -/
def PyVal.Useless (v : PyVal) : Prop := ∀ b, v = .bytes b → b = []

theorem PyVal.useless_list (xs : List PyVal) : (PyVal.list xs).Useless := nofun

theorem PyVal.useless_obj (cls : String) (attrs : List (String × PyVal)) :
    (PyVal.obj cls attrs).Useless := nofun

theorem PyVal.Useless.slice? {v i j w : PyVal} (h : v.Useless) (hw : v.slice? i j = some w) :
    w.Useless := by
  unfold PyVal.slice? at hw
  obtain ⟨lo, -, hw⟩ := Option.bind_eq_some_iff.1 hw
  obtain ⟨hi, -, hw⟩ := Option.bind_eq_some_iff.1 hw
  split at hw
  · obtain rfl := Option.some.inj hw
    intro b' hb
    rw [← PyVal.bytes.inj hb, h _ rfl, sliceList_nil]
  · obtain rfl := Option.some.inj hw
    exact nofun
  · obtain rfl := Option.some.inj hw
    exact nofun
  · obtain rfl := Option.some.inj hw
    exact nofun
  · exact absurd hw (by simp)

/-- Past the end of a buffer there is nothing. -/
theorem PyVal.useless_slice? {b : List UInt8} {offset : Nat} {j w : PyVal}
    (h : b.length ≤ offset) (hw : (PyVal.bytes b).slice? (.int offset) j = some w) :
    w.Useless := by
  unfold PyVal.slice? at hw
  obtain ⟨lo, hlo, hw⟩ := Option.bind_eq_some_iff.1 hw
  obtain ⟨hi, -, hw⟩ := Option.bind_eq_some_iff.1 hw
  obtain rfl := Option.some.inj hlo
  obtain rfl := Option.some.inj hw
  rintro b' hb
  have hindex : sliceIndex b.length offset = b.length := by
    rw [sliceIndex, if_neg (by omega), Int.toNat_natCast, Nat.min_eq_left h]
  rw [← PyVal.bytes.inj hb, sliceList, hindex]
  exact List.drop_of_length_le (List.length_take_le' _ _)

theorem unpackFrom?_useless {fmt : List Item} {data offset : PyVal} (hdata : data.Useless)
    (hfmt : 0 < calcsize fmt) : unpackFrom? fmt data offset = none := by
  have hempty : ∀ k, unpackFrom fmt [] k = none := by
    intro k
    rw [unpackFrom, if_neg (by simp; omega)]
  unfold unpackFrom?
  split
  · next b i hi =>
      obtain rfl := hdata b rfl
      rw [hempty, hempty]
      split
      · rfl
      · exact ite_self _
  · rfl

theorem unpackFrom?_past {fmt : List Item} {b : List UInt8} {offset : Nat}
    (hoffset : b.length ≤ offset) (hfmt : 0 < calcsize fmt) :
    unpackFrom? fmt (.bytes b) (.int offset) = none := by
  rw [unpackFrom?_bytes, unpackFrom, if_neg (by omega)]

end PyStruct
