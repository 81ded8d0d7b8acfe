import ReflectPytest.Wire.Generator

set_option autoImplicit false

/-! # What the generator has written so far

`Gen.packed` and `Gen.unpacked` are what the emitted instructions do, followed by what the pending
format will do once it is flushed. Each operation of the generator extends them at the end. -/

namespace ReflectPytest

open PyStruct

namespace PyModule

variable {M : PyModule}

theorem runPack_append (call : PyVal → Option (List UInt8)) (attrs : List (String × PyVal))
    (stmts stmts' : List PackStmt) :
    M.runPack call attrs (stmts ++ stmts') =
      (M.runPack call attrs stmts).bind fun a => (M.runPack call attrs stmts').map (a ++ ·) := by
  induction stmts with
  | nil => simp [runPack]
  | cons stmt rest ih =>
      simp only [List.cons_append, runPack, ih]
      cases M.runPackStmt call attrs stmt with
      | none => rfl
      | some data =>
          cases M.runPack call attrs rest <;> simp [Function.comp_def]

theorem runPack_singleton (call : PyVal → Option (List UInt8)) (attrs : List (String × PyVal))
    (stmt : PackStmt) : M.runPack call attrs [stmt] = M.runPackStmt call attrs stmt := by
  simp [runPack]

theorem runUnpack_append (call : String → List UInt8 → Option PyVal) (data : List UInt8)
    (stmts stmts' : List UnpackStmt) (l : Locals) :
    M.runUnpack call data (stmts ++ stmts') l =
      (M.runUnpack call data stmts l).bind (M.runUnpack call data stmts') := by
  induction stmts generalizing l with
  | nil => rfl
  | cons stmt rest ih =>
      simp only [List.cons_append, runUnpack]
      cases M.runUnpackStmt call data l stmt with
      | none => rfl
      | some l' => exact ih l'

theorem runUnpack_singleton (call : String → List UInt8 → Option PyVal) (data : List UInt8)
    (stmt : UnpackStmt) (l : Locals) :
    M.runUnpack call data [stmt] l = M.runUnpackStmt call data l stmt := by
  simp [runUnpack]

end PyModule

namespace Gen

open PyModule

/-- The pending names of the two methods are the same, one for each value of the pending format. -/
structure Consistent (g : Gen) : Prop where
  args : g.packArgs = g.unpackArgs
  arity : arity g.packFmt = g.unpackArgs.length

theorem consistent_init : Consistent {} := ⟨rfl, rfl⟩

theorem Consistent.unpackArgs_eq_nil {g : Gen} (h : g.Consistent) (hfmt : g.packFmt = []) :
    g.unpackArgs = [] := by
  have := h.arity
  rw [hfmt] at this
  exact List.length_eq_zero_iff.1 this.symm

/-- Only padding is pending. -/
def Bare (g : Gen) : Prop := g.packFmt ≠ [] ∧ g.unpackArgs = []

/-- The bytes written so far. -/
def packed (M : PyModule) (call : PyVal → Option (List UInt8)) (attrs : List (String × PyVal))
    (g : Gen) : Option (List UInt8) :=
  (M.runPack call attrs g.packInstructions).bind fun a =>
    ((g.packArgs.mapM (get attrs)).bind (pack g.packFmt)).map (a ++ ·)

/-- The local variables once the pending format is read. -/
def readPending (data : List UInt8) (g : Gen) (l : Locals) : Option Locals :=
  if g.packFmt = [] then some l
  else (unpackFrom g.packFmt data l.offset).map fun vals =>
    ⟨(g.unpackArgs.zip vals).reverse ++ l.fields, l.offset + calcsize g.packFmt⟩

/-- The local variables so far. -/
def unpacked (M : PyModule) (call : String → List UInt8 → Option PyVal) (data : List UInt8)
    (g : Gen) : Option Locals :=
  (M.runUnpack call data g.unpackInstructions ⟨[], 0⟩).bind (g.readPending data)

/-! ## Flushing -/

theorem flushFormat_packFmt (g : Gen) : g.flushFormat.packFmt = [] := by
  unfold flushFormat
  split
  · next h => exact h
  · rfl

theorem flushFormat_currentOffset (g : Gen) : g.flushFormat.currentOffset = g.currentOffset := by
  unfold flushFormat
  split <;> rfl

theorem Consistent.flushFormat {g : Gen} (h : g.Consistent) : g.flushFormat.Consistent := by
  unfold Gen.flushFormat
  split
  · exact h
  · exact ⟨rfl, rfl⟩

section

variable {M : PyModule} {callP : PyVal → Option (List UInt8)}
  {callU : String → List UInt8 → Option PyVal} {attrs : List (String × PyVal)} {data : List UInt8}

/-- With nothing pending only the instructions count. -/
theorem Consistent.packed_of_nil {g : Gen} (h : g.Consistent) (hfmt : g.packFmt = []) :
    g.packed M callP attrs = M.runPack callP attrs g.packInstructions := by
  unfold packed
  rw [h.args, h.unpackArgs_eq_nil hfmt, hfmt]
  simp

theorem unpacked_of_nil {g : Gen} (hfmt : g.packFmt = []) :
    g.unpacked M callU data = M.runUnpack callU data g.unpackInstructions ⟨[], 0⟩ := by
  have hpending : g.readPending data = some := by
    funext l
    rw [readPending, if_pos hfmt]
  rw [unpacked, hpending]
  exact Option.bind_fun_some _

/-- **Flushing writes what was pending.** -/
theorem Consistent.packed_flushFormat {g : Gen} (h : g.Consistent) :
    g.flushFormat.packed M callP attrs = g.packed M callP attrs := by
  by_cases hfmt : g.packFmt = []
  · rw [Gen.flushFormat, if_pos hfmt]
  · rw [h.flushFormat.packed_of_nil g.flushFormat_packFmt]
    simp only [Gen.flushFormat, if_neg hfmt, runPack_append, runPack_singleton, runPackStmt, packed]

/-- What a flush emits for the pending format. -/
theorem unpacked_flushFormat_of_ne {g : Gen} (hfmt : g.packFmt ≠ []) :
    g.flushFormat.unpacked M callU data =
      (M.runUnpack callU data g.unpackInstructions ⟨[], 0⟩).bind fun l =>
        M.runUnpackStmt callU data l (.unpackFrom g.unpackArgs g.packFmt) := by
  rw [unpacked_of_nil g.flushFormat_packFmt]
  simp only [Gen.flushFormat, if_neg hfmt, runUnpack_append]
  congr 1
  funext l
  exact runUnpack_singleton callU data _ l

theorem assign_eq_zip {targets : List String} {vals : List PyVal} (hne : targets ≠ [])
    (hlen : vals.length = targets.length) : assign targets vals = some (targets.zip vals) := by
  rcases targets with - | ⟨t, - | ⟨t', ts⟩⟩
  · exact absurd rfl hne
  · rcases vals with - | ⟨v, - | ⟨v', vs⟩⟩
    · exact absurd hlen (by simp)
    · rfl
    · exact absurd hlen (by simp)
  · exact if_pos hlen

/-- **Flushing reads what was pending**, if that is more than padding. -/
theorem Consistent.unpacked_flushFormat {g : Gen} (h : g.Consistent) (hbare : ¬ g.Bare) :
    g.flushFormat.unpacked M callU data = g.unpacked M callU data := by
  by_cases hfmt : g.packFmt = []
  · rw [Gen.flushFormat, if_pos hfmt]
  · rw [unpacked_flushFormat_of_ne hfmt, unpacked]
    congr 1
    funext l
    rw [readPending, if_neg hfmt, runUnpackStmt]
    unfold unpackFrom
    split
    · have hlen : (unpack g.packFmt (data.drop l.offset)).length = g.unpackArgs.length :=
        (length_unpack _ _).trans h.arity
      simp [assign_eq_zip (fun hnil => hbare ⟨hfmt, hnil⟩) hlen]
    · rfl

/-! ## Adding to the pending format -/

/-- The local variables after one more item, which reads the given names. -/
def readItem (data : List UInt8) (item : Item) (names : List String) (l : Locals) : Option Locals :=
  (unpackFrom [item] data l.offset).map fun vals =>
    ⟨(names.zip vals).reverse ++ l.fields, l.offset + item.size⟩

theorem Consistent.readPending_append {g g' : Gen} (h : g.Consistent) (item : Item)
    (names : List String) (hfmt : g'.packFmt = g.packFmt ++ [item])
    (hargs : g'.unpackArgs = g.unpackArgs ++ names) (l : Locals) :
    g'.readPending data l = (g.readPending data l).bind (readItem data item names) := by
  unfold readPending readItem
  rw [hfmt, hargs, if_neg (by simp)]
  by_cases hnil : g.packFmt = []
  · rw [if_pos hnil, hnil, h.unpackArgs_eq_nil hnil]
    simp
  · rw [if_neg hnil, unpackFrom_append]
    cases hvals : unpackFrom g.packFmt data l.offset with
    | none => rfl
    | some vals =>
        have hlen : g.unpackArgs.length = vals.length := by
          unfold unpackFrom at hvals
          split at hvals
          · obtain rfl := Option.some.inj hvals
            rw [length_unpack, h.arity]
          · exact absurd hvals (by simp)
        simp only [Option.bind_some, Option.map_some, Option.map_map, calcsize_append,
          calcsize_singleton, Nat.add_assoc]
        congr 1
        funext vals'
        simp [List.zip_append hlen]

/-! ## Padding -/

theorem Consistent.padUpTo {g : Gen} (h : g.Consistent) (offset : Nat) :
    (g.padUpTo offset).Consistent := by
  unfold Gen.padUpTo
  split
  · exact ⟨h.args, by simpa [PyStruct.arity] using h.arity⟩
  · exact h

theorem packed_padUpTo (g : Gen) (offset : Nat) :
    (g.padUpTo offset).packed M callP attrs =
      (g.packed M callP attrs).map (· ++ zeros (offset - g.currentOffset)) := by
  unfold Gen.padUpTo
  split
  · simp only [packed]
    cases M.runPack callP attrs g.packInstructions with
    | none => rfl
    | some a =>
        cases g.packArgs.mapM (get attrs) with
        | none => rfl
        | some args =>
            simp only [Option.bind_some, pack_append_pad]
            cases pack g.packFmt args <;> simp [zeros]
  · next hle =>
      rw [Nat.sub_eq_zero_of_le (not_lt.1 hle)]
      simp [zeros]

/-- Skip the padding up to an offset. -/
def skipTo (data : List UInt8) (currentOffset offset : Nat) (l : Locals) : Option Locals :=
  if currentOffset < offset then readItem data (.pad (offset - currentOffset)) [] l else some l

theorem Consistent.unpacked_padUpTo {g : Gen} (h : g.Consistent) (offset : Nat) :
    (g.padUpTo offset).unpacked M callU data =
      (g.unpacked M callU data).bind (skipTo data g.currentOffset offset) := by
  unfold skipTo
  by_cases hlt : g.currentOffset < offset
  · simp only [Gen.padUpTo, if_pos hlt, unpacked, Option.bind_assoc]
    congr 1
    funext l
    refine h.readPending_append (.pad (offset - g.currentOffset)) [] ?_ ?_ l
    · rfl
    · exact (List.append_nil _).symm
  · simp only [Gen.padUpTo, if_neg hlt]
    exact (Option.bind_fun_some _).symm

theorem padUpTo_currentOffset (g : Gen) (offset : Nat) :
    (g.padUpTo offset).currentOffset = max g.currentOffset offset := by
  unfold Gen.padUpTo
  split
  · next hlt => rw [Nat.max_eq_right hlt.le]; exact Nat.add_sub_cancel' hlt.le
  · next hle => exact (Nat.max_eq_left (not_lt.1 hle)).symm

/-! ## Adding a member -/

theorem Consistent.addValue {g : Gen} (h : g.Consistent) (name : String) {item : Item}
    (hitem : ∀ n, item ≠ .pad n) (size : Nat) : (g.addValue name item size).Consistent := by
  refine ⟨?_, ?_⟩
  · simp [Gen.addValue, h.args]
  · have hone : PyStruct.arity [item] = 1 := by
      cases item with
      | pad n => exact absurd rfl (hitem n)
      | _ => rfl
    simp [Gen.addValue, h.arity, hone]

theorem packed_addValue (g : Gen) (name : String) {item : Item} (hitem : ∀ n, item ≠ .pad n)
    (size : Nat) : (g.addValue name item size).packed M callP attrs =
      (g.packed M callP attrs).bind fun p =>
        (get attrs name).bind fun v => (pack [item] [v]).map (p ++ ·) := by
  simp only [packed, Gen.addValue, List.mapM_append, List.mapM_cons, List.mapM_nil]
  cases M.runPack callP attrs g.packInstructions with
  | none => rfl
  | some a =>
      cases g.packArgs.mapM (get attrs) with
      | none => rfl
      | some args =>
          cases get attrs name with
          | none => cases hp : pack g.packFmt args <;> simp [hp]
          | some v =>
              simp [pack_append_one hitem]
              cases pack g.packFmt args with
              | none => rfl
              | some p => cases pack [item] [v] <;> simp

theorem Consistent.unpacked_addValue {g : Gen} (h : g.Consistent) (name : String) (item : Item)
    (size : Nat) : (g.addValue name item size).unpacked M callU data =
      (g.unpacked M callU data).bind (readItem data item [name]) := by
  simp only [unpacked, Option.bind_assoc]
  congr 1
  funext l
  refine h.readPending_append item [name] ?_ ?_ l <;> rfl

/-- A statement after a flush comes after everything written so far. -/
theorem Consistent.packed_append {g g' : Gen} (h : g.Consistent) (h' : g'.Consistent)
    {stmt : PackStmt} (hfmt : g'.packFmt = [])
    (hinstr : g'.packInstructions = g.flushFormat.packInstructions ++ [stmt]) :
    g'.packed M callP attrs =
      (g.packed M callP attrs).bind fun p => (M.runPackStmt callP attrs stmt).map (p ++ ·) := by
  rw [h'.packed_of_nil hfmt, hinstr, runPack_append, runPack_singleton,
    ← h.packed_flushFormat, h.flushFormat.packed_of_nil g.flushFormat_packFmt]

theorem unpacked_append {g g' : Gen} {stmt : UnpackStmt} (hfmt : g'.packFmt = [])
    (hinstr : g'.unpackInstructions = g.flushFormat.unpackInstructions ++ [stmt]) :
    g'.unpacked M callU data =
      (g.flushFormat.unpacked M callU data).bind fun l => M.runUnpackStmt callU data l stmt := by
  rw [unpacked_of_nil hfmt, hinstr, runUnpack_append, unpacked_of_nil g.flushFormat_packFmt]
  congr 1
  funext l
  exact runUnpack_singleton callU data stmt l

end

end Gen

/-! ## Members -/

namespace Emission

/-- It adds a value to the pending format. -/
def isValue : Emission → Bool
  | .value _ _ => true
  | _ => false

/-- A value is more than padding. -/
def Proper : Emission → Prop
  | .value item _ => ∀ n, item ≠ .pad n
  | _ => True

/-- What the member contributes to `pack_wire`. -/
def pack (M : PyModule) (call : PyVal → Option (List UInt8)) (v : PyVal) :
    Emission → Option (List UInt8)
  | .value item _ => PyStruct.pack [item] [v]
  | .items subType takesBytes _ _ => M.packArray call subType takesBytes v
  | .nested _ _ => call v

/-- What `unpack_wire` reads for the member, with the new offset. -/
def unpack (M : PyModule) (call : String → List UInt8 → Option PyVal) (data : List UInt8)
    (offset : Nat) : Emission → Option (PyVal × Nat)
  | .value item _ => (unpackFrom [item] data offset).bind fun vals =>
      vals.head?.map fun v => (v, offset + item.size)
  | .items subType _ n _ => (M.unpackItems call data subType n offset).map
      fun (vals, offset) => (.list vals, offset)
  | .nested subType _ => M.unpackNested call data subType offset

/-- How far it moves `current_offset`. -/
def advance : Emission → Nat
  | .value _ size => size
  | .items _ _ n size => n * size
  | .nested _ size => size

end Emission

theorem emission_proper (t : CType) (extents : List Nat) : (emission t extents).Proper := by
  unfold emission
  split
  · split
    · exact fun _ => Item.noConfusion
    · trivial
  · trivial
  · exact fun _ => Item.noConfusion
  · split
    · exact fun _ => Item.noConfusion
    · trivial

namespace Gen

open PyModule

variable {M : PyModule} {callP : PyVal → Option (List UInt8)}
  {callU : String → List UInt8 → Option PyVal} {attrs : List (String × PyVal)} {data : List UInt8}

theorem emit_currentOffset (g : Gen) (name : String) (e : Emission) :
    (g.emit name e).currentOffset = g.currentOffset + e.advance := by
  cases e with
  | value item size => rfl
  | items subType takesBytes n size =>
      exact congrArg (· + n * size) g.flushFormat_currentOffset
  | nested subType size => exact congrArg (· + size) g.flushFormat_currentOffset

theorem Consistent.emit {g : Gen} (h : g.Consistent) (name : String) {e : Emission}
    (he : e.Proper) : (g.emit name e).Consistent := by
  cases e with
  | value item size => exact h.addValue name he size
  | items subType takesBytes n size => exact ⟨h.flushFormat.args, h.flushFormat.arity⟩
  | nested subType size => exact ⟨h.flushFormat.args, h.flushFormat.arity⟩

/-- **A member is packed after everything before it.** -/
theorem Consistent.packed_emit {g : Gen} (h : g.Consistent) (name : String) {e : Emission}
    (he : e.Proper) : (g.emit name e).packed M callP attrs =
      (g.packed M callP attrs).bind fun p =>
        ((get attrs name).bind fun v => e.pack M callP v).map (p ++ ·) := by
  cases e with
  | value item size =>
      refine (packed_addValue g name he size).trans ?_
      congr 1
      funext p
      cases get attrs name <;> rfl
  | items subType takesBytes n size =>
      exact h.packed_append (h.emit name he) g.flushFormat_packFmt rfl
  | nested subType size => exact h.packed_append (h.emit name he) g.flushFormat_packFmt rfl

/-- Read one member and assign it. -/
def readMember (M : PyModule) (call : String → List UInt8 → Option PyVal) (data : List UInt8)
    (name : String) (e : Emission) (l : Locals) : Option Locals :=
  (e.unpack M call data l.offset).map fun (v, offset) => ⟨(name, v) :: l.fields, offset⟩

/-- **A member is read after everything before it**: a value continues the pending format, anything
    else follows a flush. -/
theorem Consistent.unpacked_emit {g : Gen} (h : g.Consistent) (name : String) {e : Emission}
    (he : e.Proper) : (g.emit name e).unpacked M callU data =
      (if e.isValue then g.unpacked M callU data else g.flushFormat.unpacked M callU data).bind
        (readMember M callU data name e) := by
  cases e with
  | value item size =>
      rw [Gen.emit, h.unpacked_addValue name item size]
      congr 1
      funext l
      simp only [readItem, readMember, Emission.unpack, unpackFrom]
      split
      · cases item with
        | pad n => exact absurd rfl (he n)
        | _ => rfl
      · rfl
  | items subType takesBytes n size =>
      have happend : (g.addItems name subType takesBytes n size).unpacked M callU data =
          (g.flushFormat.unpacked M callU data).bind fun l =>
            M.runUnpackStmt callU data l (.forRange name n subType) :=
        unpacked_append g.flushFormat_packFmt rfl
      rw [Gen.emit, happend]
      congr 1
      funext l
      simp only [runUnpackStmt, readMember, Emission.unpack, Option.map_map]
      rfl
  | nested subType size =>
      have happend : (g.addNested name subType size).unpacked M callU data =
          (g.flushFormat.unpacked M callU data).bind fun l =>
            M.runUnpackStmt callU data l (.nested name subType) :=
        unpacked_append g.flushFormat_packFmt rfl
      exact happend

end Gen

end ReflectPytest
