import ReflectPytest.Library.PyStruct

set_option autoImplicit false

/-! # Generated Python modules

The statements the generator emits into `pack_wire` and `unpack_wire`, and what a module of
generated classes does when it is imported and when the two methods are called. `none` is an
exception; a call runs with a bound on the depth of nested calls. Names stand for Python
identifiers, which are in normal form NFKC; a class and an enumeration have different ones. What
the methods do is told here for names that they do not use themselves, neither for a variable nor
for a class. -/

namespace ReflectPytest

open PyStruct

/-- What `get_python_type_name` yields: a Python builtin (`bool`, `float`), the name of a generated
    class, of an enumeration, or a name nothing defines. -/
inductive TypeName where
  | builtin
  | cls (name : String)
  | enum (name : String)
  | other
  deriving DecidableEq, Repr

/-- A statement of `pack_wire`. -/
inductive PackStmt where
  /-- `data.extend(struct.pack(fmt, self.a, self.b))` -/
  | structPack (fmt : List Item) (args : List String)
  /-- `for item in self.field:`, with the coercion of an item to `subType`; the loop of a C array
      also takes `bytes`. -/
  | forItems (field : String) (subType : TypeName) (takesBytes : Bool)
  /-- `data.extend(self.field.pack_wire())` -/
  | nested (field : String)
  deriving DecidableEq, Repr

/-- A statement of `unpack_wire`, with the advance of `offset` after it. -/
inductive UnpackStmt where
  /-- `a, b = struct.unpack_from(fmt, data, offset)`, with `[0]` unless there are two targets -/
  | unpackFrom (targets : List String) (fmt : List Item)
  /-- `for _ in range(n):` append `subType.unpack_wire(data[offset:offset+sub_size])` to `field` -/
  | forRange (field : String) (n : Nat) (subType : TypeName)
  /-- `field = subType.unpack_wire(data[offset:offset+sub_size])` -/
  | nested (field : String) (subType : TypeName)
  deriving DecidableEq, Repr

/-- A generated class: its annotated fields, with the name each annotation mentions, and the bodies
    of its two methods. -/
structure PyClass where
  name : String
  wireSize : Nat
  fields : List (String × TypeName)
  packWire : List PackStmt
  unpackWire : List UnpackStmt
  deriving DecidableEq, Repr

/-- A module of generated classes. -/
abbrev PyModule : Type := List PyClass

/-! ## Import -/

/-- The enumerations that `generate_bindings` emits. -/
def enumNames : List String := ["MsgId", "Severity", "SystemState", "DriveMode"]

/-- The name is defined once the classes `defined` and the emitted enumerations are. -/
def TypeName.isDefined (defined : List String) : TypeName → Bool
  | .builtin => true
  | .cls name => defined.contains name
  | .enum name => enumNames.contains name
  | .other => false

/-- The words that are no identifiers in Python. -/
def pythonKeywords : List String :=
  ["False", "None", "True", "and", "as", "assert", "async", "await", "break", "class", "continue",
    "def", "del", "elif", "else", "except", "finally", "for", "from", "global", "if", "import",
    "in", "is", "lambda", "nonlocal", "not", "or", "pass", "raise", "return", "try", "while",
    "with", "yield"]

/-- The statement parses: an assignment has a target. -/
def UnpackStmt.parses : UnpackStmt → Bool
  | .unpackFrom targets _ => !targets.isEmpty
  | _ => true

/-- The class definition parses: so do its statements, and it uses no keyword as a name. -/
def PyClass.parses (c : PyClass) : Bool :=
  (c.name :: c.fields.map Prod.fst).all (!pythonKeywords.contains ·) &&
    c.unpackWire.all UnpackStmt.parses

namespace PyModule

/-- The class definitions execute one after another: every annotation is defined when it is
    evaluated. -/
def defines (defined : List String) : PyModule → Bool
  | [] => true
  | c :: rest =>
      c.fields.all (fun f => f.2.isDefined defined) && defines (c.name :: defined) rest

/-- The module can be imported. -/
def Executable (M : PyModule) : Prop :=
  M.all PyClass.parses = true ∧ M.defines [] = true

instance (M : PyModule) : Decidable M.Executable := inferInstanceAs (Decidable (_ ∧ _))

/-- The class of that name. -/
def find (M : PyModule) (name : String) : Option PyClass :=
  List.find? (fun c => decide (c.name = name)) M

/-- The value of a name among attributes or local variables. -/
def get (attrs : List (String × PyVal)) (name : String) : Option PyVal := attrs.lookup name

/-- `subType.WIRE_SIZE`. -/
def wireSize (M : PyModule) : TypeName → Option Nat
  | .cls name => (M.find name).map PyClass.wireSize
  | _ => none

/-! ## pack_wire -/

/-- The value of a key among the entries of a `dict`. -/
def getItem : List (PyVal × PyVal) → String → Option PyVal
  | [], _ => none
  | (.str key, v) :: entries, name => if key = name then some v else getItem entries name
  | _ :: entries, name => getItem entries name

/-- `cls(*args)`, `cls(**kwargs)` or `cls(item)`: as many arguments as fields, in order or by
    name. -/
def construct? (c : PyClass) : PyVal → Option PyVal
  | .tuple args =>
      if args.length = c.fields.length then some (.obj c.name ((c.fields.map Prod.fst).zip args))
      else none
  | .dict kwargs =>
      if kwargs.length = c.fields.length then
        (c.fields.mapM fun f => (getItem kwargs f.1).map fun v => (f.1, v)).map (.obj c.name)
      else none
  | item =>
      match c.fields with
      | [f] => some (.obj c.name [(f.1, item)])
      | _ => none

/-- The coercion of an item without `pack_wire`: the class is called with it. Coerced to anything
    but a class it still has no `pack_wire`. -/
def coerce (M : PyModule) (subType : TypeName) : PyVal → Option PyVal
  | .obj name attrs => some (.obj name attrs)
  | item =>
      match subType with
      | .cls name => (M.find name).bind fun c => construct? c item
      | _ => none

/-- `data.extend(item.pack_wire())` for all items. -/
def packItems (M : PyModule) (call : PyVal → Option (List UInt8)) (subType : TypeName)
    (items : List PyVal) : Option (List UInt8) :=
  (items.mapM fun item => (M.coerce subType item).bind call).map List.flatten

/-- The loop over the items of an array. -/
def packArray (M : PyModule) (call : PyVal → Option (List UInt8)) (subType : TypeName)
    (takesBytes : Bool) : PyVal → Option (List UInt8)
  | .bytes b =>
      if takesBytes then some b else M.packItems call subType (b.map fun x => .int x.toNat)
  | v => v.iter?.bind (M.packItems call subType)

/-- What a statement appends to `data`. -/
def runPackStmt (M : PyModule) (call : PyVal → Option (List UInt8))
    (attrs : List (String × PyVal)) : PackStmt → Option (List UInt8)
  | .structPack fmt args => (args.mapM (get attrs)).bind (pack fmt)
  | .forItems field subType takesBytes =>
      (get attrs field).bind (M.packArray call subType takesBytes)
  | .nested field => (get attrs field).bind call

def runPack (M : PyModule) (call : PyVal → Option (List UInt8)) (attrs : List (String × PyVal)) :
    List PackStmt → Option (List UInt8)
  | [] => some []
  | stmt :: rest => (M.runPackStmt call attrs stmt).bind fun data =>
      (M.runPack call attrs rest).map (data ++ ·)

/-- `v.pack_wire()`. -/
def packWire (M : PyModule) : Nat → PyVal → Option (List UInt8)
  | 0, _ => none
  | depth + 1, .obj name attrs => (M.find name).bind fun c =>
      M.runPack (M.packWire depth) attrs c.packWire
  | _, _ => none

/-! ## unpack_wire -/

/-- The local variables of `unpack_wire`: the fields assigned so far, the last one first, and
    `offset`. -/
structure Locals where
  fields : List (String × PyVal)
  offset : Nat

/-- Assign the values of a tuple. -/
def assign : List String → List PyVal → Option (List (String × PyVal))
  | [], _ => none
  | [target], vals => vals.head?.map fun v => [(target, v)]
  | targets, vals => if vals.length = targets.length then some (targets.zip vals) else none

/-- `data[offset:offset+size]`. -/
def slice (data : List UInt8) (offset size : Nat) : List UInt8 := (data.drop offset).take size

/-- `subType.unpack_wire(data[offset:offset+sub_size])`, with the new offset. -/
def unpackNested (M : PyModule) (call : String → List UInt8 → Option PyVal) (data : List UInt8)
    (subType : TypeName) (offset : Nat) : Option (PyVal × Nat) :=
  match subType with
  | .cls name => (M.wireSize (.cls name)).bind fun size =>
      (call name (slice data offset size)).map fun item => (item, offset + size)
  | _ => none

/-- The same `n` times. -/
def unpackItems (M : PyModule) (call : String → List UInt8 → Option PyVal) (data : List UInt8)
    (subType : TypeName) : Nat → Nat → Option (List PyVal × Nat)
  | 0, offset => some ([], offset)
  | n + 1, offset => (M.unpackNested call data subType offset).bind fun (item, offset) =>
      (M.unpackItems call data subType n offset).map fun (items, offset) => (item :: items, offset)

def runUnpackStmt (M : PyModule) (call : String → List UInt8 → Option PyVal) (data : List UInt8)
    (l : Locals) : UnpackStmt → Option Locals
  | .unpackFrom targets fmt => (unpackFrom fmt data l.offset).bind fun vals =>
      (assign targets vals).map fun new => ⟨new.reverse ++ l.fields, l.offset + calcsize fmt⟩
  | .forRange field n subType => (M.unpackItems call data subType n l.offset).map
      fun (items, offset) => ⟨(field, .list items) :: l.fields, offset⟩
  | .nested field subType => (M.unpackNested call data subType l.offset).map
      fun (item, offset) => ⟨(field, item) :: l.fields, offset⟩

def runUnpack (M : PyModule) (call : String → List UInt8 → Option PyVal) (data : List UInt8) :
    List UnpackStmt → Locals → Option Locals
  | [], l => some l
  | stmt :: rest, l => (M.runUnpackStmt call data l stmt).bind (M.runUnpack call data rest)

/-- `return cls(a=a, b=b)`. -/
def construct (c : PyClass) (l : Locals) : Option PyVal :=
  (c.fields.mapM fun f => (get l.fields f.1).map fun v => (f.1, v)).map (.obj c.name)

/-- `name.unpack_wire(data)`. -/
def unpackWire (M : PyModule) : Nat → String → List UInt8 → Option PyVal
  | 0, _, _ => none
  | depth + 1, name, data => (M.find name).bind fun c =>
      (M.runUnpack (M.unpackWire depth) data c.unpackWire ⟨[], 0⟩).bind (construct c)

end PyModule

end ReflectPytest
