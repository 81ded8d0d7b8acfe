import Mathlib.Logic.Function.Basic
import ReflectPytest.Library.PyOperators
import ReflectPytest.Wire.PyModule

set_option autoImplicit false

/-! # Generated methods and the names in them

What `pack_wire` and `unpack_wire` do under Python's scoping rules. The decoded members of a class
are local variables of `unpack_wire`, next to its parameters and to the variables it reads with, and
a name that a function assigns anywhere is local to it everywhere. Member names are identifiers of
both languages in normal form NFKC, in which Python compares them, and without double underscore,
which C++ reserves; a keyword among them and an annotation with an enumeration that is not emitted
show when the module is imported. -/

namespace ReflectPytest

open PyStruct

/-! ## Import -/

/-- The attributes that every generated class has. -/
def classAttributes : List String := ["WIRE_SIZE", "pack_wire", "unpack_wire"]

/-- `@dataclass` takes an attribute of the class under the name of a field for its default, and
    there are no fields without a default after it. -/
def PyClass.defaultsLast (c : PyClass) : Bool :=
  ((c.fields.map Prod.fst).dropWhile (!classAttributes.contains ·)).all classAttributes.contains

/-- The module can be imported, its class decorators included. -/
def PyModule.Imports (M : PyModule) : Prop := M.Executable ∧ ∀ c ∈ M, c.defaultsLast = true

instance (M : PyModule) : Decidable M.Imports := inferInstanceAs (Decidable (_ ∧ _))

/-! ## Names -/

namespace UnpackStmt

/-- The members a statement decodes. -/
def targets : UnpackStmt → List String
  | .unpackFrom targets _ => targets
  | .forRange field _ _ => [field]
  | .nested field _ => [field]

/-- The other names it assigns. -/
def temporaries : UnpackStmt → List String
  | .unpackFrom _ _ => ["offset"]
  | .forRange _ _ _ => ["_", "sub_size", "item", "offset"]
  | .nested _ _ => ["sub_size", "offset"]

end UnpackStmt

/-- The local variables of `unpack_wire`. -/
def localNames (stmts : List UnpackStmt) : List String :=
  ["cls", "data", "offset"] ++ stmts.flatMap fun s => s.targets ++ s.temporaries

/-- What a local variable is bound to. -/
inductive Binding where
  | cls (name : String)
  | val (v : PyVal)

/-- The local variables that are bound. -/
abbrev Frame : Type := String → Option Binding

namespace Frame

/-- `x = v`. -/
def set (f : Frame) (x : String) (v : PyVal) : Frame := Function.update f x (some (.val v))

/-- The value of `x`; the class has no use as a value. -/
def val (f : Frame) (x : String) : Option PyVal :=
  match f x with
  | some (.val v) => some v
  | _ => none

@[simp] theorem set_self (f : Frame) (x : String) (v : PyVal) : f.set x v x = some (.val v) :=
  Function.update_self ..

theorem set_of_ne (f : Frame) {x y : String} (h : y ≠ x) (v : PyVal) : f.set x v y = f y :=
  Function.update_of_ne h ..

theorem val_eq_some {f : Frame} {x : String} {v : PyVal} :
    f.val x = some v ↔ f x = some (.val v) := by
  unfold val
  split
  · next w h => rw [h, Option.some_inj, Option.some_inj, Binding.val.injEq]
  · next h => exact ⟨fun hv => absurd hv (by simp), fun hv => absurd hv (h v)⟩

theorem val_congr {f g : Frame} {x : String} (h : f x = g x) : f.val x = g.val x := by
  rw [val, val, h]

@[simp] theorem val_set_self (f : Frame) (x : String) (v : PyVal) : (f.set x v).val x = some v :=
  val_eq_some.2 (set_self f x v)

theorem set_apply (f : Frame) (x : String) (v : PyVal) (y : String) :
    f.set x v y = if y = x then some (.val v) else f y :=
  Function.update_apply ..

theorem val_set (f : Frame) (x : String) (v : PyVal) (y : String) :
    (f.set x v).val y = if y = x then some v else f.val y := by
  by_cases h : y = x
  · rw [if_pos h, h, val_set_self]
  · rw [if_neg h, val_congr (set_of_ne f h v)]

/-- `a, b = vals`. -/
def setAll (f : Frame) (vals : List (String × PyVal)) : Frame :=
  vals.foldl (fun f a => f.set a.1 a.2) f

theorem setAll_of_notMem (f : Frame) {vals : List (String × PyVal)} {x : String}
    (h : x ∉ vals.map Prod.fst) : f.setAll vals x = f x := by
  induction vals generalizing f with
  | nil => rfl
  | cons a vals ih =>
      obtain ⟨hne, hrest⟩ := not_or.1 (mt List.mem_cons.2 h)
      exact (ih _ hrest).trans (set_of_ne f hne a.2)

/-- The last value assigned to a name is the one it has. -/
theorem setAll_of_lookup (f : Frame) {vals : List (String × PyVal)} {x : String} {v : PyVal}
    (h : vals.reverse.lookup x = some v) : f.setAll vals x = some (.val v) := by
  induction vals generalizing f with
  | nil => exact absurd h (by simp)
  | cons a vals ih =>
      obtain ⟨y, w⟩ := a
      rw [List.reverse_cons, List.lookup_append] at h
      cases hrest : vals.reverse.lookup x with
      | some u =>
          rw [hrest, Option.some_or] at h
          exact ih _ (hrest.trans h)
      | none =>
          rw [hrest, Option.none_or, List.lookup_cons] at h
          by_cases hx : x = y
          · subst hx
            rw [beq_self_eq_true] at h
            obtain rfl := Option.some.inj h
            have hlast : x ∉ vals.map Prod.fst := by
              intro hmem
              obtain ⟨b, hb, hname⟩ := List.mem_map.1 hmem
              have hother := List.lookup_eq_none_iff.1 hrest b (List.mem_reverse.2 hb)
              simp [hname] at hother
            exact (setAll_of_notMem (f.set x w) hlast).trans (set_self f x w)
          · rw [beq_eq_false_iff_ne.2 hx] at h
            exact absurd h (by simp)

/-- `offset += n`. -/
def advance (f : Frame) (n : PyVal) : Option Frame :=
  (f.val "offset").bind fun offset => (offset.add? n).map (f.set "offset")

/-- `x.append(item)`. -/
def append (f : Frame) (x : String) (item : PyVal) : Option Frame :=
  match f.val x with
  | some (.list xs) => some (f.set x (.list (xs ++ [item])))
  | _ => none

/-- The parameters, and `offset = 0`. -/
def initial (name : String) (data : PyVal) : Frame := fun x =>
  if x = "cls" then some (.cls name)
  else if x = "data" then some (.val data)
  else if x = "offset" then some (.val (.int 0))
  else none

end Frame

namespace PyModule

variable (M : PyModule) (locals : List String)

/-- A name that is not local, and not a class of the module, is a module or a builtin of Python. In
    its place a value or a class has neither its attributes nor its use. -/
def isPython (x : String) : Bool := !locals.contains x && (M.find x).isNone

/-- The class a name stands for: in a local variable, or in the module. -/
def resolve (f : Frame) (x : String) : Option Binding :=
  if locals.contains x then f x else (M.find x).map fun c => .cls c.name

/-- `subType`. -/
def resolveType (f : Frame) : TypeName → Option Binding
  | .cls name => M.resolve locals f name
  | _ => none

/-- `b.WIRE_SIZE`, also through an instance, whose own attributes come first. -/
def wireSizeOf : Binding → Option PyVal
  | .cls name => (M.find name).map fun c => .int c.wireSize
  | .val (.obj name attrs) =>
      (get attrs "WIRE_SIZE").or ((M.find name).map fun c => .int c.wireSize)
  | .val _ => none

/-- The class `b.unpack_wire` is called for. -/
def unpackWireOf : Binding → Option String
  | .cls name => some name
  | .val (.obj name attrs) => if (get attrs "unpack_wire").isSome then none else some name
  | .val _ => none

/-! ## unpack_wire -/

/-- `sub_size = subType.WIRE_SIZE` and `subType.unpack_wire(data[offset:offset+sub_size])`. -/
def decodeItem (call : String → PyVal → Option PyVal) (subType : TypeName) (f : Frame) :
    Option (PyVal × Frame) := do
  let size ← M.wireSizeOf (← M.resolveType locals f subType)
  let f := f.set "sub_size" size
  let name ← unpackWireOf (← M.resolveType locals f subType)
  let data ← f.val "data"
  let offset ← f.val "offset"
  let item ← call name (← data.slice? offset (← offset.add? size))
  return (item, f)

/-- The rounds `i, i + 1, …` of the loop over an array. -/
def decodeItems (call : String → PyVal → Option PyVal) (field : String) (subType : TypeName) :
    Nat → Nat → Frame → Option Frame
  | 0, _, f => some f
  | n + 1, i, f => do
      let (item, f) ← M.decodeItem locals call subType (f.set "_" (.int i))
      let f ← (f.set "item" item).append field item
      let f ← f.advance (← f.val "sub_size")
      decodeItems call field subType n (i + 1) f

def execStmt (call : String → PyVal → Option PyVal) (f : Frame) : UnpackStmt → Option Frame
  | .unpackFrom targets fmt =>
      if M.isPython locals "struct" then do
        let vals ← unpackFrom? fmt (← f.val "data") (← f.val "offset")
        (f.setAll (← assign targets vals)).advance (.int (calcsize fmt))
      else none
  | .forRange field n subType =>
      if M.isPython locals "range" then
        M.decodeItems locals call field subType n 0 (f.set field (.list []))
      else none
  | .nested field subType => do
      let (item, f) ← M.decodeItem locals call subType f
      let f := f.set field item
      f.advance (← f.val "sub_size")

def execStmts (call : String → PyVal → Option PyVal) : List UnpackStmt → Frame → Option Frame
  | [], f => some f
  | stmt :: rest, f => (M.execStmt locals call f stmt).bind (execStmts call rest)

end PyModule

/-- `return cls(a=a, b=b)`. -/
def Frame.construct (c : PyClass) (f : Frame) : Option PyVal :=
  match f "cls" with
  | some (.cls _) => (c.fields.mapM fun x => (f.val x.1).map fun v => (x.1, v)).map (.obj c.name)
  | _ => none

namespace PyModule

/-- `name.unpack_wire(data)`. -/
def unpackWireScoped (M : PyModule) : Nat → String → PyVal → Option PyVal
  | 0, _, _ => none
  | depth + 1, name, data => (M.find name).bind fun c =>
      (M.execStmts (localNames c.unpackWire) (M.unpackWireScoped depth) c.unpackWire
        (.initial name data)).bind (Frame.construct c)

/-! ## pack_wire -/

/-- `v.pack_wire()`: members are only read as attributes, but one of that name hides the method. -/
def packWireScoped (M : PyModule) : Nat → PyVal → Option (List UInt8)
  | 0, _ => none
  | depth + 1, .obj name attrs =>
      if (get attrs "pack_wire").isSome then none
      else (M.find name).bind fun c => M.runPack (M.packWireScoped depth) attrs c.packWire
  | _, _ => none

end PyModule

/-! ## Names that are used for one thing only -/

namespace UnpackStmt

/-- The variables a statement reads and writes to do its work. -/
def uses : UnpackStmt → List String
  | .unpackFrom _ _ => ["data", "offset"]
  | .forRange _ _ _ => ["_", "sub_size", "item", "data", "offset"]
  | .nested _ _ => ["sub_size", "data", "offset"]

/-- Those it still uses once a member is assigned. -/
def usesAfter : UnpackStmt → List String
  | .unpackFrom _ _ => ["offset"]
  | .forRange _ _ _ => ["_", "sub_size", "item", "data", "offset"]
  | .nested _ _ => ["sub_size", "offset"]

/-- The names it takes from outside the method. -/
def globals : UnpackStmt → List String
  | .unpackFrom _ _ => ["struct"]
  | .forRange _ _ (.cls name) => ["range", name]
  | .forRange _ _ _ => ["range"]
  | .nested _ (.cls name) => [name]
  | .nested _ _ => []

end UnpackStmt

/-- No member is assigned to a variable that is still in use, and none to `cls`, which is used at
    the end. -/
def Unclobbered : List UnpackStmt → Prop
  | [] => True
  | s :: rest => (∀ x ∈ s.targets, x ≠ "cls" ∧ x ∉ s.usesAfter ∧ ∀ s' ∈ rest, x ∉ s'.uses) ∧
      Unclobbered rest

instance decidableUnclobbered : (stmts : List UnpackStmt) → Decidable (Unclobbered stmts)
  | [] => isTrue trivial
  | s :: rest =>
      have := decidableUnclobbered rest
      inferInstanceAs (Decidable ((∀ x ∈ s.targets, x ≠ "cls" ∧ x ∉ s.usesAfter ∧
        ∀ s' ∈ rest, x ∉ s'.uses) ∧ Unclobbered rest))

/-- Every name in the methods of the class means what the generator means by it. -/
structure PyClass.Unshadowed (c : PyClass) : Prop where
  defaults : c.defaultsLast = true
  method : "pack_wire" ∉ c.fields.map Prod.fst
  globals : ∀ s ∈ c.unpackWire, ∀ x ∈ s.globals, x ∉ localNames c.unpackWire
  locals : Unclobbered c.unpackWire

instance (c : PyClass) : Decidable c.Unshadowed :=
  decidable_of_iff (c.defaultsLast = true ∧ "pack_wire" ∉ c.fields.map Prod.fst ∧
    (∀ s ∈ c.unpackWire, ∀ x ∈ s.globals, x ∉ localNames c.unpackWire) ∧ Unclobbered c.unpackWire)
    ⟨fun ⟨h₁, h₂, h₃, h₄⟩ => ⟨h₁, h₂, h₃, h₄⟩, fun ⟨h₁, h₂, h₃, h₄⟩ => ⟨h₁, h₂, h₃, h₄⟩⟩

end ReflectPytest
