import ReflectPytest.Wire.Generated

set_option autoImplicit false

/-! # Which bytes can be unpacked

`unpack_wire` never looks at what the bytes are: it raises `struct.error` when there are too few of
them, and anything else it could raise depends on the class alone. So one run on zeros shows that a
class unpacks everything of that length (`unpackWire_messageById`). -/

namespace ReflectPytest

open PyStruct

/-- Two computations that agree up to `f`, and go on alike. -/
theorem bind_congr_of_map {α β γ : Type} {R : Option β → Option β → Prop} (hnone : R none none)
    {f : α → γ} {o o' : Option α} (h : o.map f = o'.map f) {k k' : α → Option β}
    (hk : ∀ a a', f a = f a' → R (k a) (k' a')) : R (o.bind k) (o'.bind k') := by
  cases o with
  | none =>
      cases o' with
      | none => exact hnone
      | some a' => exact absurd h (by simp)
  | some a =>
      cases o' with
      | none => exact absurd h (by simp)
      | some a' => exact hk a a' (Option.some.inj h)

theorem bind_map_congr {α β γ δ : Type} {f : α → γ} {g : β → δ} {o o' : Option α}
    (h : o.map f = o'.map f) {k k' : α → Option β}
    (hk : ∀ a a', f a = f a' → (k a).map g = (k' a').map g) :
    (o.bind k).map g = (o'.bind k').map g :=
  bind_congr_of_map (R := fun x x' => x.map g = x'.map g) rfl h hk

theorem map_map_congr {α β γ δ : Type} {f : α → γ} {g : β → δ} {o o' : Option α}
    (h : o.map f = o'.map f) {k k' : α → β} (hk : ∀ a a', f a = f a' → g (k a) = g (k' a')) :
    (o.map k).map g = (o'.map k').map g := by
  rw [Option.map_eq_bind (f := k), Option.map_eq_bind (f := k')]
  exact bind_map_congr h fun a a' ha => congrArg some (hk a a' ha)

theorem isSome_mapM {α β : Type} (f : α → Option β) (l : List α) :
    (l.mapM f).isSome = l.all fun a => (f a).isSome := by
  induction l with
  | nil => rfl
  | cons a l ih =>
      rw [List.mapM_cons, List.all_cons, ← ih]
      cases f a <;> cases l.mapM f <;> rfl

namespace PyModule

variable {M : PyModule}

/-- What `unpack_wire` does next depends on: the names it has assigned, and where it is. -/
def Locals.shape (l : Locals) : List String × Nat := (l.fields.map Prod.fst, l.offset)

theorem unpackFrom_map_length (fmt : List Item) {data data' : List UInt8}
    (h : data.length = data'.length) (offset : Nat) :
    (unpackFrom fmt data offset).map List.length =
      (unpackFrom fmt data' offset).map List.length := by
  unfold unpackFrom
  rw [h]
  split <;> simp

theorem assign_map_names (targets : List String) {vals vals' : List PyVal}
    (h : vals.length = vals'.length) : (assign targets vals).map (List.map Prod.fst) =
      (assign targets vals').map (List.map Prod.fst) := by
  unfold assign
  split
  · rfl
  · cases vals <;> cases vals' <;> simp at h ⊢
  · rw [h]
    split
    · next hlen =>
        simp only [Option.map_some, Option.some.injEq]
        rw [List.map_fst_zip (by omega), List.map_fst_zip (by omega)]
    · rfl

section

variable {call : String → List UInt8 → Option PyVal}
  (hcall : ∀ name (data data' : List UInt8), data.length = data'.length →
    (call name data).isSome = (call name data').isSome)
  {data data' : List UInt8} (hdata : data.length = data'.length)

include hcall hdata

theorem unpackNested_map_offset (subType : TypeName) (offset : Nat) :
    (M.unpackNested call data subType offset).map Prod.snd =
      (M.unpackNested call data' subType offset).map Prod.snd := by
  unfold unpackNested
  split
  · next name =>
      refine bind_map_congr (f := id) rfl fun size size' hsize => ?_
      obtain rfl : size = size' := hsize
      have hsome := hcall name (slice data offset size) (slice data' offset size)
        (by simp [slice, hdata])
      cases hitem : call name (slice data offset size) <;>
        cases hitem' : call name (slice data' offset size) <;> simp_all
  · rfl

theorem unpackItems_map_offset (subType : TypeName) (n offset : Nat) :
    (M.unpackItems call data subType n offset).map Prod.snd =
      (M.unpackItems call data' subType n offset).map Prod.snd := by
  induction n generalizing offset with
  | zero => rfl
  | succ n ih =>
      refine bind_map_congr (unpackNested_map_offset hcall hdata subType offset) ?_
      rintro ⟨item, offset⟩ ⟨item', offset'⟩ (rfl : offset = offset')
      exact map_map_congr (ih offset) fun _ _ h => h

theorem runUnpackStmt_map_shape (stmt : UnpackStmt) {l l' : Locals} (hl : l.shape = l'.shape) :
    (M.runUnpackStmt call data l stmt).map Locals.shape =
      (M.runUnpackStmt call data' l' stmt).map Locals.shape := by
  obtain ⟨hnames, hoffset⟩ := Prod.mk.inj hl
  cases stmt with
  | unpackFrom targets fmt =>
      simp only [runUnpackStmt, hoffset]
      refine bind_map_congr (unpackFrom_map_length fmt hdata l'.offset) fun vals vals' hvals => ?_
      refine map_map_congr (assign_map_names targets hvals) fun new new' hnew => ?_
      simp [Locals.shape, hnew, hnames]
  | forRange field n subType =>
      simp only [runUnpackStmt, hoffset]
      refine map_map_congr (unpackItems_map_offset hcall hdata subType n l'.offset) ?_
      rintro ⟨items, offset⟩ ⟨items', offset'⟩ (rfl : offset = offset')
      simp [Locals.shape, hnames]
  | nested field subType =>
      simp only [runUnpackStmt, hoffset]
      refine map_map_congr (unpackNested_map_offset hcall hdata subType l'.offset) ?_
      rintro ⟨item, offset⟩ ⟨item', offset'⟩ (rfl : offset = offset')
      simp [Locals.shape, hnames]

theorem runUnpack_map_shape (stmts : List UnpackStmt) {l l' : Locals} (hl : l.shape = l'.shape) :
    (M.runUnpack call data stmts l).map Locals.shape =
      (M.runUnpack call data' stmts l').map Locals.shape := by
  induction stmts generalizing l l' with
  | nil => exact congrArg some hl
  | cons stmt rest ih =>
      exact bind_map_congr (runUnpackStmt_map_shape hcall hdata stmt hl) fun _ _ h => ih h

end

theorem get_isSome {l l' : List (String × PyVal)} (h : l.map Prod.fst = l'.map Prod.fst)
    (name : String) : (get l name).isSome = (get l' name).isSome := by
  unfold get
  induction l generalizing l' with
  | nil =>
      cases l' with
      | nil => rfl
      | cons _ _ => exact absurd h (by simp)
  | cons a l ih =>
      cases l' with
      | nil => exact absurd h (by simp)
      | cons a' l' =>
          obtain ⟨hname, hrest⟩ := List.cons.inj h
          rw [List.lookup_cons, List.lookup_cons, show a.1 = a'.1 from hname]
          split
          · rfl
          · exact ih hrest

/-- All fields have been assigned, or not. -/
theorem construct_isSome (c : PyClass) {l l' : Locals} (hl : l.shape = l'.shape) :
    (construct c l).isSome = (construct c l').isSome := by
  obtain ⟨hnames, -⟩ := Prod.mk.inj hl
  simp only [construct, Option.isSome_map, isSome_mapM]
  exact congrArg c.fields.all (funext fun f => get_isSome hnames f.1)

/-- **Unpacking goes by length**: it succeeds on all strings of bytes of one length, or on none. -/
theorem unpackWire_isSome_congr (M : PyModule) (depth : Nat) (name : String)
    {data data' : List UInt8} (h : data.length = data'.length) :
    (M.unpackWire depth name data).isSome = (M.unpackWire depth name data').isSome := by
  induction depth generalizing name data data' with
  | zero => rfl
  | succ depth ih =>
      unfold unpackWire
      cases M.find name with
      | none => rfl
      | some c =>
          have hrun := runUnpack_map_shape (M := M) (fun name _ _ h => ih name h) h c.unpackWire
            (l := ⟨[], 0⟩) rfl
          exact bind_congr_of_map (R := fun x x' => x.isSome = x'.isSome) rfl hrun
            fun _ _ => construct_isSome c

end PyModule

/-- **Every payload of the right size is unpacked.** -/
theorem unpackWire_messageById (id : MsgId) {data : List UInt8}
    (h : data.length = (messageById id).wireSize) :
    (generated.unpackWire 3 (messageById id).name data).isSome = true := by
  have hzeros : data.length = (List.replicate (messageById id).wireSize (0 : UInt8)).length := by
    rw [h, List.length_replicate]
  rw [PyModule.unpackWire_isSome_congr _ _ _ hzeros]
  cases id <;> decide +kernel

end ReflectPytest
