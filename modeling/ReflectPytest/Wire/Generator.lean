import ReflectPytest.Wire.CType
import ReflectPytest.Wire.PyModule

set_option autoImplicit false

/-! # The codec generator

`generate_struct` walks the members of a class and collects a pending format with its arguments,
which it flushes into the two method bodies before every nested member and at the end. -/

namespace ReflectPytest

open PyStruct

/-- `get_struct_format_char`. -/
def getStructFormatChar : Scalar → Code
  | .arith .bool => .bool
  | .arith t =>
      if t.size = 1 then if t.isSigned then .b else .B
      else if t.size = 2 then if t.isSigned then .h else .H
      else if t.size = 4 then if t.isSigned then .i else .I
      else if t.size = 8 then if t.isSigned then .q else .Q
      else .bool
  | .float => .f
  | .double => .d
  | .enum _ t =>
      if t.size = 1 then .B
      else if t.size = 2 then .H
      else if t.size = 8 then .Q
      else .bool
  | .half => .bool
  | .longDouble => .bool
  | .other _ _ => .bool

/-- `get_python_type_name`, for a type with array extents. -/
def getPythonTypeName : CType → List Nat → TypeName
  | .cls name _, [] => .cls name
  | .scalar (.arith .bool), [] => .builtin
  | .scalar .float, [] => .builtin
  | .scalar (.enum name _), [] => .enum name
  | _, _ => .other

/-- The name in the annotation of a member; `get_python_type_hint` is `Any`, which the module does
    not import, for types it does not know. -/
def typeHint : CType → List Nat → TypeName
  | .stdArray e extents _, [] =>
      if e.isByte && extents.isEmpty then .builtin else getPythonTypeName e extents
  | .cls name _, [] => .cls name
  | .scalar (.enum name _), [] => .enum name
  | .scalar (.other _ _), [] => .other
  | .scalar _, [] => .builtin
  | t, _ :: _ => if t.isByte then .builtin else getPythonTypeName t []

/-- The pack and unpack logic of a member: a value of the pending format, a loop over items of the
    given size, or a call for a nested object. -/
inductive Emission where
  | value (item : Item) (size : Nat)
  | items (subType : TypeName) (takesBytes : Bool) (n size : Nat)
  | nested (subType : TypeName) (size : Nat)

/-- The branch `generate_struct` takes for a member. -/
def emission : CType → List Nat → Emission
  | .stdArray e extents n, [] =>
      if e.isByte && extents.isEmpty then .value (.str n) n
      else .items (getPythonTypeName e extents) false n (extents.prod * e.size)
  | .cls sub members, [] => .nested (.cls sub) (CType.cls sub members).size
  | .scalar s, [] => .value (.code (getStructFormatChar s)) s.size
  | t, n :: _ =>
      if t.isByte then .value (.str n) n
      else .items (getPythonTypeName t []) true n t.size

theorem emission_array (t : CType) (n : Nat) (inner : List Nat) :
    emission t (n :: inner) = if t.isByte then .value (.str n) n
      else .items (getPythonTypeName t []) true n t.size := by
  cases t <;> rfl

/-! ## One class -/

/-- The local variables of `generate_struct`. -/
structure Gen where
  packFmt : List Item := []
  packArgs : List String := []
  packInstructions : List PackStmt := []
  unpackInstructions : List UnpackStmt := []
  unpackArgs : List String := []
  currentOffset : Nat := 0

namespace Gen

/-- `flush_format`. -/
def flushFormat (g : Gen) : Gen :=
  if g.packFmt = [] then g
  else
    { g with
      packInstructions := g.packInstructions ++ [.structPack g.packFmt g.packArgs]
      unpackInstructions := g.unpackInstructions ++ [.unpackFrom g.unpackArgs g.packFmt]
      packFmt := []
      packArgs := []
      unpackArgs := [] }

/-- Pad bytes up to an offset. -/
def padUpTo (g : Gen) (offset : Nat) : Gen :=
  if g.currentOffset < offset then
    { g with
      packFmt := g.packFmt ++ [.pad (offset - g.currentOffset)]
      currentOffset := g.currentOffset + (offset - g.currentOffset) }
  else g

/-- One more value in the pending format. -/
def addValue (g : Gen) (name : String) (item : Item) (size : Nat) : Gen :=
  { g with
    packFmt := g.packFmt ++ [item]
    packArgs := g.packArgs ++ [name]
    unpackArgs := g.unpackArgs ++ [name]
    currentOffset := g.currentOffset + size }

/-- The loops over the items of an array. -/
def addItems (g : Gen) (name : String) (subType : TypeName) (takesBytes : Bool) (n size : Nat) :
    Gen :=
  let g := g.flushFormat
  { g with
    packInstructions := g.packInstructions ++ [.forItems name subType takesBytes]
    unpackInstructions := g.unpackInstructions ++ [.forRange name n subType]
    currentOffset := g.currentOffset + n * size }

/-- A member of class type. -/
def addNested (g : Gen) (name : String) (subType : TypeName) (size : Nat) : Gen :=
  let g := g.flushFormat
  { g with
    packInstructions := g.packInstructions ++ [.nested name]
    unpackInstructions := g.unpackInstructions ++ [.nested name subType]
    currentOffset := g.currentOffset + size }

/-- The instructions for a member. -/
def emit (g : Gen) (name : String) : Emission → Gen
  | .value item size => g.addValue name item size
  | .items subType takesBytes n size => g.addItems name subType takesBytes n size
  | .nested subType size => g.addNested name subType size

/-- The loop over the accessible members; hidden ones only move the offsets of the others. -/
def addMembers : Members → Nat → Gen → Gen
  | .nil, _, g => g
  | .cons name access t extents rest, off, g =>
      let fieldOffset := roundUp off t.align
      let g := match access with
        | .hidden => g
        | .accessible => (g.padUpTo fieldOffset).emit name (emission t extents)
      addMembers rest (fieldOffset + extents.prod * t.size) g

end Gen

/-- `nonstatic_data_members_of`, with the annotations of the fields. -/
def Members.fields : Members → List (String × TypeName)
  | .nil => []
  | .cons name .accessible t extents rest => (name, typeHint t extents) :: rest.fields
  | .cons _ .hidden _ _ rest => rest.fields

/-- The class `generate_struct` emits. -/
def generateClass (name : String) (ms : Members) : PyClass :=
  let size := (CType.cls name ms).size
  if ms.fields = [] then ⟨name, size, [], [], []⟩
  else
    let g := ((Gen.addMembers ms 0 {}).padUpTo size).flushFormat
    ⟨name, size, ms.fields, g.packInstructions, g.unpackInstructions⟩

/-! ## All classes -/

/-- The names visited so far and the classes emitted so far. -/
structure Emitted where
  visited : List String := []
  classes : PyModule := []

mutual

/-- `generate_struct`: the classes of the members come first. -/
def generateStruct : CType → Emitted → Emitted
  | .cls name ms, e =>
      if e.visited.contains name then e
      else
        let e := generateNested ms { e with visited := name :: e.visited }
        { e with classes := e.classes ++ [generateClass name ms] }
  | _, e => e

def generateNested : Members → Emitted → Emitted
  | .nil, e => e
  | .cons _ .hidden _ _ rest, e => generateNested rest e
  | .cons _ .accessible (.stdArray elem extents _) _ rest, e =>
      generateNested rest (if extents = [] then generateStruct elem e else e)
  | .cons _ .accessible t _ rest, e => generateNested rest (generateStruct t e)

end

/-- The module generated for one type. -/
def moduleOf (t : CType) : PyModule := (generateStruct t {}).classes

end ReflectPytest
