import ReflectPytest.Wire.Hygiene

set_option autoImplicit false

/-! # What clashes of names do

A run of `unpack_wire` that returns the value it should never touches a local variable that stands
for something else: in every clash of names either a statement raises, or a member ends up with a
value that is not its own. -/

namespace ReflectPytest

open PyStruct PyModule

/-! ## What a statement does -/

namespace Frame

theorem advance_eq_some {f g : Frame} {n : PyVal} : f.advance n = some g ↔
    ∃ offset v, f.val "offset" = some offset ∧ offset.add? n = some v ∧ g = f.set "offset" v := by
  unfold advance
  constructor
  · intro h
    obtain ⟨offset, hoffset, h⟩ := Option.bind_eq_some_iff.1 h
    obtain ⟨v, hv, rfl⟩ := Option.map_eq_some_iff.1 h
    exact ⟨offset, v, hoffset, hv, rfl⟩
  · rintro ⟨offset, v, hoffset, hv, rfl⟩
    rw [hoffset, Option.bind_some, hv]
    rfl

theorem append_eq_some {f g : Frame} {x : String} {item : PyVal} : f.append x item = some g ↔
    ∃ xs, f.val x = some (.list xs) ∧ g = f.set x (.list (xs ++ [item])) := by
  unfold append
  constructor
  · intro h
    split at h
    · next xs hxs => exact ⟨xs, hxs, (Option.some.inj h).symm⟩
    · exact absurd h (by simp)
  · rintro ⟨xs, hxs, rfl⟩
    rw [hxs]

/-- A variable that has a value keeps having one. -/
def Keeps (f g : Frame) : Prop := ∀ x, (f.val x).isSome = true → (g.val x).isSome = true

theorem Keeps.refl (f : Frame) : Keeps f f := fun _ h => h

theorem Keeps.trans {f g h : Frame} (hfg : Keeps f g) (hgh : Keeps g h) : Keeps f h :=
  fun x hx => hgh x (hfg x hx)

theorem keeps_set (f : Frame) (x : String) (v : PyVal) : Keeps f (f.set x v) := by
  intro y hy
  rw [val_set]
  split
  · rfl
  · exact hy

theorem keeps_setAll (f : Frame) (vals : List (String × PyVal)) : Keeps f (f.setAll vals) := by
  induction vals generalizing f with
  | nil => exact Keeps.refl f
  | cons a vals ih => exact (keeps_set f a.1 a.2).trans (ih (f.set a.1 a.2))

theorem isSome_setAll (f : Frame) {vals : List (String × PyVal)} {x : String}
    (h : x ∈ vals.map Prod.fst) : ((f.setAll vals).val x).isSome = true := by
  induction vals generalizing f with
  | nil => exact absurd h (by simp)
  | cons a vals ih =>
      rcases List.mem_cons.1 h with rfl | h
      · refine keeps_setAll (f.set a.1 a.2) vals _ ?_
        rw [val_set_self]
        rfl
      · exact ih _ h

end Frame

section

variable {M : PyModule} {locals : List String} {call : String → PyVal → Option PyVal}

/-- What is there when an item is decoded. -/
theorem decodeItem_eq_some {subType : TypeName} {f g : Frame} {item : PyVal}
    (h : M.decodeItem locals call subType f = some (item, g)) :
    ∃ b size b' name data offset hi slice, M.resolveType locals f subType = some b ∧
      M.wireSizeOf b = some size ∧ g = f.set "sub_size" size ∧
      M.resolveType locals g subType = some b' ∧ unpackWireOf b' = some name ∧
      g.val "data" = some data ∧ g.val "offset" = some offset ∧ offset.add? size = some hi ∧
      data.slice? offset hi = some slice ∧ call name slice = some item := by
  simp only [decodeItem, Option.bind_eq_bind, Option.bind_eq_some_iff, Option.pure_def,
    Option.some.injEq, Prod.mk.injEq] at h
  obtain ⟨b, hb, size, hsize, b', hb', name, hname, data, hdata, offset, hoffset, hi, hhi, slice,
    hslice, item', hitem, rfl, rfl⟩ := h
  exact ⟨b, size, b', name, data, offset, hi, slice, hb, hsize, rfl, hb', hname, hdata, hoffset,
    hhi, hslice, hitem⟩

/-- One round of a loop that goes on. -/
theorem decodeItems_succ_eq_some {field : String} {subType : TypeName} {n i : Nat} {f g : Frame}
    (h : M.decodeItems locals call field subType (n + 1) i f = some g) :
    ∃ item f₁ xs size f₂, M.decodeItem locals call subType (f.set "_" (.int i)) = some (item, f₁) ∧
      (f₁.set "item" item).val field = some (.list xs) ∧
      ((f₁.set "item" item).set field (.list (xs ++ [item]))).val "sub_size" = some size ∧
      ((f₁.set "item" item).set field (.list (xs ++ [item]))).advance size = some f₂ ∧
      M.decodeItems locals call field subType n (i + 1) f₂ = some g := by
  simp only [decodeItems, Option.bind_eq_bind, Option.bind_eq_some_iff] at h
  obtain ⟨⟨item, f₁⟩, hitem, f₁', happend, size, hsize, f₂, hadvance, hrest⟩ := h
  obtain ⟨xs, hxs, rfl⟩ := Frame.append_eq_some.1 happend
  exact ⟨item, f₁, xs, size, f₂, hitem, hxs, hsize, hadvance, hrest⟩

theorem unpackFrom_eq_some {targets : List String} {fmt : List Item} {f g : Frame}
    (h : M.execStmt locals call f (.unpackFrom targets fmt) = some g) :
    M.isPython locals "struct" = true ∧ ∃ data offset vals new, f.val "data" = some data ∧
      f.val "offset" = some offset ∧ unpackFrom? fmt data offset = some vals ∧
      assign targets vals = some new ∧ (f.setAll new).advance (.int (calcsize fmt)) = some g := by
  rw [execStmt] at h
  split at h
  · next hpython =>
      simp only [Option.bind_eq_bind, Option.bind_eq_some_iff] at h
      obtain ⟨data, hdata, offset, hoffset, vals, hvals, new, hnew, hadvance⟩ := h
      exact ⟨hpython, data, offset, vals, new, hdata, hoffset, hvals, hnew, hadvance⟩
  · exact absurd h (by simp)

theorem forRange_eq_some {field : String} {n : Nat} {subType : TypeName} {f g : Frame}
    (h : M.execStmt locals call f (.forRange field n subType) = some g) :
    M.isPython locals "range" = true ∧
      M.decodeItems locals call field subType n 0 (f.set field (.list [])) = some g := by
  rw [execStmt] at h
  split at h
  · next hpython => exact ⟨hpython, h⟩
  · exact absurd h (by simp)

theorem nested_eq_some {field : String} {subType : TypeName} {f g : Frame}
    (h : M.execStmt locals call f (.nested field subType) = some g) :
    ∃ item f₁ size, M.decodeItem locals call subType f = some (item, f₁) ∧
      (f₁.set field item).val "sub_size" = some size ∧
      (f₁.set field item).advance size = some g := by
  simp only [execStmt, Option.bind_eq_bind, Option.bind_eq_some_iff] at h
  obtain ⟨⟨item, f₁⟩, hitem, size, hsize, hadvance⟩ := h
  exact ⟨item, f₁, size, hitem, hsize, hadvance⟩

/-! ## Frames -/

theorem decodeItem_frame {subType : TypeName} {f g : Frame} {item : PyVal}
    (h : M.decodeItem locals call subType f = some (item, g)) {x : String} (hx : x ≠ "sub_size") :
    g x = f x := by
  obtain ⟨b, size, b', name, data, offset, hi, slice, -, -, rfl, -⟩ := decodeItem_eq_some h
  exact f.set_of_ne hx size

theorem decodeItem_keeps {subType : TypeName} {f g : Frame} {item : PyVal}
    (h : M.decodeItem locals call subType f = some (item, g)) : Frame.Keeps f g := by
  obtain ⟨b, size, b', name, data, offset, hi, slice, -, -, rfl, -⟩ := decodeItem_eq_some h
  exact f.keeps_set _ _

theorem advance_frame {f g : Frame} {n : PyVal} (h : f.advance n = some g) {x : String}
    (hx : x ≠ "offset") : g x = f x := by
  obtain ⟨offset, v, -, -, rfl⟩ := Frame.advance_eq_some.1 h
  exact f.set_of_ne hx v

theorem advance_keeps {f g : Frame} {n : PyVal} (h : f.advance n = some g) : Frame.Keeps f g := by
  obtain ⟨offset, v, -, -, rfl⟩ := Frame.advance_eq_some.1 h
  exact f.keeps_set _ _

theorem decodeItems_frame {field : String} {subType : TypeName} : ∀ {n i : Nat} {f g : Frame},
    M.decodeItems locals call field subType n i f = some g →
    Frame.Keeps f g ∧ ∀ x, x ≠ field → x ∉ ["_", "sub_size", "item", "offset"] → g x = f x
  | 0, _, f, g, h => by
      obtain rfl := Option.some.inj h
      exact ⟨Frame.Keeps.refl f, fun _ _ _ => rfl⟩
  | n + 1, i, f, g, h => by
      obtain ⟨item, f₁, xs, size, f₂, hitem, -, -, hadvance, hrest⟩ := decodeItems_succ_eq_some h
      obtain ⟨hkeeps, hframe⟩ := decodeItems_frame hrest
      refine ⟨((((f.keeps_set _ _).trans (decodeItem_keeps hitem)).trans
        (f₁.keeps_set _ _)).trans (Frame.keeps_set _ _ _)).trans
          ((advance_keeps hadvance).trans hkeeps), fun x hx hxs => ?_⟩
      have hnames := hxs
      simp only [List.mem_cons, List.not_mem_nil, or_false, not_or] at hnames
      obtain ⟨h₁, h₂, h₃, h₄⟩ := hnames
      rw [hframe x hx hxs, advance_frame hadvance h₄, Frame.set_of_ne _ hx, Frame.set_of_ne _ h₃,
        decodeItem_frame hitem h₂, Frame.set_of_ne _ h₁]

/-- A statement assigns its members and its temporary variables. -/
theorem execStmt_frame {s : UnpackStmt} {f g : Frame} (h : M.execStmt locals call f s = some g) :
    Frame.Keeps f g ∧ (∀ x ∈ s.targets, (g.val x).isSome = true) ∧
      ∀ x, x ∉ s.targets → x ∉ s.temporaries → g x = f x := by
  cases s with
  | unpackFrom targets fmt =>
      obtain ⟨-, data, offset, vals, new, -, -, -, hassign, hadvance⟩ := unpackFrom_eq_some h
      have hnames := names_of_assign hassign
      refine ⟨(f.keeps_setAll new).trans (advance_keeps hadvance), fun x hx => ?_,
        fun x hx hx' => ?_⟩
      · exact advance_keeps hadvance x (f.isSome_setAll (hnames ▸ hx))
      · rw [advance_frame hadvance (by simpa [UnpackStmt.temporaries] using hx'),
          f.setAll_of_notMem (hnames ▸ hx)]
  | forRange field n subType =>
      obtain ⟨hkeeps, hframe⟩ := decodeItems_frame (forRange_eq_some h).2
      refine ⟨(f.keeps_set _ _).trans hkeeps, fun x hx => ?_, fun x hx hx' => ?_⟩
      · obtain rfl := List.mem_singleton.1 hx
        refine hkeeps _ ?_
        rw [Frame.val_set_self]
        rfl
      · have hne : x ≠ field := fun heq => hx (heq ▸ List.mem_singleton_self _)
        rw [hframe x hne hx', f.set_of_ne hne]
  | nested field subType =>
      obtain ⟨item, f₁, size, hitem, -, hadvance⟩ := nested_eq_some h
      refine ⟨(decodeItem_keeps hitem).trans ((f₁.keeps_set _ _).trans (advance_keeps hadvance)),
        fun x hx => ?_, fun x hx hx' => ?_⟩
      · obtain rfl := List.mem_singleton.1 hx
        refine advance_keeps hadvance _ ?_
        rw [Frame.val_set_self]
        rfl
      · have hne : x ≠ field := fun heq => hx (heq ▸ List.mem_singleton_self _)
        simp only [UnpackStmt.temporaries, List.mem_cons, List.not_mem_nil, or_false, not_or] at hx'
        rw [advance_frame hadvance hx'.2, Frame.set_of_ne _ hne, decodeItem_frame hitem hx'.1]

/-! ## Runs -/

theorem execStmts_append (stmts stmts' : List UnpackStmt) (f : Frame) :
    M.execStmts locals call (stmts ++ stmts') f =
      (M.execStmts locals call stmts f).bind (M.execStmts locals call stmts') := by
  induction stmts generalizing f with
  | nil => rfl
  | cons s rest ih =>
      simp only [List.cons_append, execStmts]
      cases M.execStmt locals call f s with
      | none => rfl
      | some f' => exact ih f'

/-- A run stops before every statement and after it. -/
theorem execStmts_split {pre post : List UnpackStmt} {s : UnpackStmt} {f g : Frame}
    (h : M.execStmts locals call (pre ++ s :: post) f = some g) :
    ∃ f₁ f₂, M.execStmts locals call pre f = some f₁ ∧ M.execStmt locals call f₁ s = some f₂ ∧
      M.execStmts locals call post f₂ = some g := by
  rw [execStmts_append] at h
  obtain ⟨f₁, hpre, h⟩ := Option.bind_eq_some_iff.1 h
  obtain ⟨f₂, hs, hpost⟩ := Option.bind_eq_some_iff.1 h
  exact ⟨f₁, f₂, hpre, hs, hpost⟩

theorem execStmts_frame {stmts : List UnpackStmt} {f g : Frame}
    (h : M.execStmts locals call stmts f = some g) : Frame.Keeps f g ∧
      ∀ x, (∀ s ∈ stmts, x ∉ s.targets ∧ x ∉ s.temporaries) → g x = f x := by
  induction stmts generalizing f with
  | nil =>
      obtain rfl := Option.some.inj h
      exact ⟨Frame.Keeps.refl f, fun _ _ => rfl⟩
  | cons s rest ih =>
      obtain ⟨f', hs, hrest⟩ := Option.bind_eq_some_iff.1 h
      obtain ⟨hkeeps, -, hframe⟩ := execStmt_frame hs
      obtain ⟨hkeeps', hframe'⟩ := ih hrest
      refine ⟨hkeeps.trans hkeeps', fun x hx => ?_⟩
      obtain ⟨hx₁, hx₂⟩ := hx s List.mem_cons_self
      rw [hframe' x fun s' hs' => hx s' (List.mem_cons_of_mem _ hs'), hframe x hx₁ hx₂]

/-- `cls` is the class at the end, so that no member is called `cls`. -/
theorem cls_notMem_targets {stmts : List UnpackStmt} {f g : Frame} {name : String}
    (h : M.execStmts locals call stmts f = some g) (hg : g "cls" = some (.cls name)) :
    ∀ s ∈ stmts, "cls" ∉ s.targets := by
  intro s hs hx
  obtain ⟨pre, post, rfl⟩ := List.append_of_mem hs
  obtain ⟨f₁, f₂, -, hs', hpost⟩ := execStmts_split h
  have hval := (execStmts_frame hpost).1 _ ((execStmt_frame hs').2.1 _ hx)
  rw [Frame.val, hg] at hval
  exact absurd hval Bool.false_ne_true

/-- `struct` and `range` are what they are everywhere else. -/
theorem isPython_of_run {stmts : List UnpackStmt} {f g : Frame}
    (h : M.execStmts locals call stmts f = some g) : ∀ s ∈ stmts,
      (∀ targets fmt, s = .unpackFrom targets fmt → "struct" ∉ locals) ∧
      ∀ field n subType, s = .forRange field n subType → "range" ∉ locals := by
  intro s hs
  obtain ⟨pre, post, rfl⟩ := List.append_of_mem hs
  obtain ⟨f₁, f₂, -, hs', -⟩ := execStmts_split h
  refine ⟨?_, ?_⟩
  · rintro targets fmt rfl
    exact (isPython_iff.1 (unpackFrom_eq_some hs').1).1
  · rintro field n subType rfl
    exact (isPython_iff.1 (forRange_eq_some hs').1).1

theorem mem_of_assign {targets : List String} {vals : List PyVal} {new : List (String × PyVal)}
    (h : assign targets vals = some new) : ∀ a ∈ new, a.2 ∈ vals := by
  unfold assign at h
  split at h
  · exact absurd h (by simp)
  · obtain ⟨v, hv, rfl⟩ := Option.map_eq_some_iff.1 h
    intro a ha
    rw [List.mem_singleton.1 ha]
    exact List.mem_of_mem_head? hv
  · split at h
    · obtain rfl := Option.some.inj h
      exact fun a ha => (List.of_mem_zip ha).2
    · exact absurd h (by simp)

/-! ## Classes -/

/-- The object, or all objects in the list, are of classes in `P`. -/
def ClassesIn (P : String → Prop) : PyVal → Prop
  | .obj name _ => P name
  | .list xs => ∀ name attrs, PyVal.obj name attrs ∈ xs → P name
  | _ => True

/-- All objects in the frame are of classes in `P`. -/
structure Frame.Classes (P : String → Prop) (f : Frame) : Prop where
  cls : ∀ x name, f x = some (.cls name) → P name
  val : ∀ x v, f.val x = some v → ClassesIn P v

section

variable {P : String → Prop} {f g : Frame}

theorem Frame.Classes.set (hf : f.Classes P) (x : String) {v : PyVal} (hv : ClassesIn P v) :
    (f.set x v).Classes P := by
  refine ⟨fun y name h => ?_, fun y w h => ?_⟩
  · rw [Frame.set_apply] at h
    split at h
    · exact absurd h (by simp)
    · exact hf.cls y name h
  · rw [Frame.val_set] at h
    split at h
    · exact Option.some.inj h ▸ hv
    · exact hf.val y w h

theorem Frame.Classes.setAll (hf : f.Classes P) {vals : List (String × PyVal)}
    (hvals : ∀ a ∈ vals, ClassesIn P a.2) : (f.setAll vals).Classes P := by
  induction vals generalizing f with
  | nil => exact hf
  | cons a vals ih =>
      exact ih (hf.set a.1 (hvals a List.mem_cons_self))
        fun b hb => hvals b (List.mem_cons_of_mem _ hb)

theorem classesIn_of_isNumber {v : PyVal} (h : v.IsNumber) : ClassesIn P v := by
  cases v with
  | obj name attrs => exact absurd h (PyVal.not_isNumber_obj name attrs)
  | list xs => exact absurd h (PyVal.not_isNumber_list xs)
  | _ => trivial

theorem Frame.Classes.advance (hf : f.Classes P) {n : PyVal} (h : f.advance n = some g) :
    g.Classes P := by
  obtain ⟨offset, v, -, hv, rfl⟩ := Frame.advance_eq_some.1 h
  exact hf.set _ (classesIn_of_isNumber (PyVal.isNumber_of_add? hv).2.2)

variable (hcall : ∀ name d v, call name d = some v → ∃ attrs, v = .obj name attrs)
  (hglobal : ∀ name, name ∉ locals → P name)

include hglobal in
/-- The class that is called is one of a binding in the frame, or global. -/
theorem class_of_resolveType (hf : f.Classes P) {subType : TypeName} {b : Binding} {name : String}
    (hb : M.resolveType locals f subType = some b) (hname : unpackWireOf b = some name) :
    P name := by
  cases subType with
  | cls x =>
      rw [resolveType, resolve] at hb
      split at hb
      · unfold unpackWireOf at hname
        split at hname
        · next c =>
            obtain rfl := Option.some.inj hname
            exact hf.cls x _ hb
        · next c attrs =>
            split at hname
            · exact absurd hname (by simp)
            · obtain rfl := Option.some.inj hname
              exact hf.val x _ (Frame.val_eq_some.2 hb)
        · exact absurd hname (by simp)
      · next hx =>
          obtain ⟨c, hc, rfl⟩ := Option.map_eq_some_iff.1 hb
          obtain rfl := Option.some.inj hname
          rw [(find_eq_some hc).2]
          exact hglobal x (by simpa using hx)
  | _ => exact absurd hb (by simp [resolveType])

include hcall hglobal in
theorem decodeItem_classes (hf : f.Classes P) {subType : TypeName} {item : PyVal}
    (h : M.decodeItem locals call subType f = some (item, g)) :
    g.Classes P ∧ ∃ name attrs, item = .obj name attrs ∧ P name := by
  obtain ⟨b, size, b', name, data, offset, hi, slice, -, -, rfl, hb', hname, -, -, hsum, -,
    hitem⟩ := decodeItem_eq_some h
  have hg := hf.set "sub_size" (classesIn_of_isNumber (PyVal.isNumber_of_add? hsum).2.1)
  obtain ⟨attrs, rfl⟩ := hcall name slice item hitem
  exact ⟨hg, name, attrs, rfl, class_of_resolveType hglobal hg hb' hname⟩

include hcall hglobal in
theorem decodeItems_classes {field : String} {subType : TypeName} : ∀ {n i : Nat} {f g : Frame},
    f.Classes P → M.decodeItems locals call field subType n i f = some g → g.Classes P
  | 0, _, f, g, hf, h => by
      obtain rfl := Option.some.inj h
      exact hf
  | n + 1, i, f, g, hf, h => by
      obtain ⟨item, f₁, xs, size, f₂, hitem, hxs, -, hadvance, hrest⟩ :=
        decodeItems_succ_eq_some h
      obtain ⟨hf₁, name, attrs, rfl, hP⟩ :=
        decodeItem_classes hcall hglobal (hf.set "_" (v := .int i) trivial) hitem
      have hset : (f₁.set "item" (.obj name attrs)).Classes P := hf₁.set "item" hP
      refine decodeItems_classes ((hset.set field ?_).advance hadvance) hrest
      intro name' attrs' hmem
      rcases List.mem_append.1 hmem with hmem | hmem
      · exact hset.val _ _ hxs name' attrs' hmem
      · obtain ⟨rfl, -⟩ := PyVal.obj.inj (List.mem_singleton.1 hmem)
        exact hP

include hcall hglobal in
theorem execStmt_classes (hf : f.Classes P) {s : UnpackStmt}
    (h : M.execStmt locals call f s = some g) : g.Classes P := by
  cases s with
  | unpackFrom targets fmt =>
      obtain ⟨-, data, offset, vals, new, -, -, hvals, hassign, hadvance⟩ := unpackFrom_eq_some h
      obtain ⟨bs, rfl⟩ := unpack_of_unpackFrom? hvals
      refine (hf.setAll fun a ha => ?_).advance hadvance
      rcases mem_unpack (mem_of_assign hassign a ha) with ⟨b, hb, -⟩ | hnumber
      · rw [hb]
        trivial
      · exact classesIn_of_isNumber hnumber
  | forRange field n subType =>
      exact decodeItems_classes hcall hglobal (hf.set field (v := .list []) (by simp [ClassesIn]))
        (forRange_eq_some h).2
  | nested field subType =>
      obtain ⟨item, f₁, size, hitem, -, hadvance⟩ := nested_eq_some h
      obtain ⟨hf₁, name, attrs, rfl, hP⟩ := decodeItem_classes hcall hglobal hf hitem
      exact (hf₁.set field (v := .obj name attrs) hP).advance hadvance

include hcall hglobal in
theorem execStmts_classes {stmts : List UnpackStmt} (hf : f.Classes P)
    (h : M.execStmts locals call stmts f = some g) : g.Classes P := by
  induction stmts generalizing f with
  | nil =>
      obtain rfl := Option.some.inj h
      exact hf
  | cons s rest ih =>
      obtain ⟨f', hs, hrest⟩ := Option.bind_eq_some_iff.1 h
      exact ih (execStmt_classes hcall hglobal hf hs) hrest

end

/-! ## Statements that read what they should -/

/-- The calls return objects of their class, and nothing for what is no data. -/
structure Sound (call : String → PyVal → Option PyVal) : Prop where
  obj : ∀ name d v, call name d = some v → ∃ attrs, v = .obj name attrs
  useless : ∀ name d, d.Useless → call name d = none

/-- The statement has something to read. -/
structure UnpackStmt.Proper (s : UnpackStmt) : Prop where
  calcsize : ∀ targets fmt, s = .unpackFrom targets fmt → 0 < calcsize fmt
  items : ∀ field n subType, s = .forRange field n subType → n ≠ 0

/-- There are data at the offset. -/
structure Reads (f : Frame) : Prop where
  data : ∃ data, f.val "data" = some data ∧ ¬ data.Useless
  offset : ∃ offset, f.val "offset" = some offset ∧ offset.index?.isSome = true
  room : ∀ b (n : Nat), f.val "data" = some (.bytes b) → f.val "offset" = some (.int n) →
    n < b.length

section

variable {f g : Frame}

theorem Reads.of_slice? {data offset hi slice : PyVal} (hdata : f.val "data" = some data)
    (hoffset : f.val "offset" = some offset) (h : data.slice? offset hi = some slice)
    (huseless : ¬ slice.Useless) : Reads f := by
  refine ⟨⟨data, hdata, fun hd => huseless (hd.slice? h)⟩, ⟨offset, hoffset, ?_⟩, ?_⟩
  · obtain ⟨i, hi, -⟩ := Option.bind_eq_some_iff.1 h
    rw [hi]
    rfl
  · intro b n hb hn
    obtain rfl := Option.some.inj (hdata.symm.trans hb)
    obtain rfl := Option.some.inj (hoffset.symm.trans hn)
    by_contra hle
    exact huseless (PyVal.useless_slice? (not_lt.1 hle) h)

theorem Reads.of_unpackFrom? {fmt : List Item} {data offset : PyVal} {vals : List PyVal}
    (hdata : f.val "data" = some data) (hoffset : f.val "offset" = some offset)
    (hfmt : 0 < calcsize fmt) (h : unpackFrom? fmt data offset = some vals) : Reads f := by
  refine ⟨⟨data, hdata, fun hd => ?_⟩, ⟨offset, hoffset, ?_⟩, ?_⟩
  · rw [unpackFrom?_useless hd hfmt] at h
    exact absurd h (by simp)
  · unfold unpackFrom? at h
    split at h
    · next b i hi =>
        rw [hi]
        rfl
    · exact absurd h (by simp)
  · intro b n hb hn
    obtain rfl := Option.some.inj (hdata.symm.trans hb)
    obtain rfl := Option.some.inj (hoffset.symm.trans hn)
    by_contra hle
    rw [unpackFrom?_past (not_lt.1 hle) hfmt] at h
    exact absurd h (by simp)

/-- The same data in another frame. -/
theorem Reads.congr (h : Reads g) (hdata : g.val "data" = f.val "data")
    (hoffset : g.val "offset" = f.val "offset") : Reads f :=
  ⟨hdata ▸ h.data, hoffset ▸ h.offset, hdata ▸ hoffset ▸ h.room⟩

theorem Reads.data_ne_list (h : Reads f) (xs : List PyVal) : f.val "data" ≠ some (.list xs) := by
  obtain ⟨data, hdata, huseless⟩ := h.data
  intro heq
  exact huseless (Option.some.inj (hdata.symm.trans heq) ▸ PyVal.useless_list xs)

theorem Reads.offset_ne_list (h : Reads f) (xs : List PyVal) :
    f.val "offset" ≠ some (.list xs) := by
  obtain ⟨offset, hoffset, hindex⟩ := h.offset
  intro heq
  rw [Option.some.inj (hoffset.symm.trans heq)] at hindex
  exact absurd hindex Bool.false_ne_true

theorem decodeItem_reads (hcall : ∀ name d, d.Useless → call name d = none) {subType : TypeName}
    {item : PyVal} (h : M.decodeItem locals call subType f = some (item, g)) : Reads f := by
  obtain ⟨b, size, b', name, data, offset, hi, slice, -, -, rfl, -, -, hdata, hoffset, -, hslice,
    hitem⟩ := decodeItem_eq_some h
  rw [Frame.val_set, if_neg (by decide)] at hdata hoffset
  refine Reads.of_slice? hdata hoffset hslice fun hu => ?_
  rw [hcall name slice hu] at hitem
  exact absurd hitem (by simp)

/-- **Every statement reads the data.** -/
theorem execStmt_reads (hcall : ∀ name d, d.Useless → call name d = none) {s : UnpackStmt}
    (hs : s.Proper) (h : M.execStmt locals call f s = some g) : Reads f := by
  cases s with
  | unpackFrom targets fmt =>
      obtain ⟨-, data, offset, vals, new, hdata, hoffset, hvals, -, -⟩ := unpackFrom_eq_some h
      exact Reads.of_unpackFrom? hdata hoffset (hs.calcsize targets fmt rfl) hvals
  | nested field subType =>
      obtain ⟨item, f₁, size, hitem, -, -⟩ := nested_eq_some h
      exact decodeItem_reads hcall hitem
  | forRange field n subType =>
      obtain ⟨n, rfl⟩ := Nat.exists_eq_succ_of_ne_zero (hs.items field n subType rfl)
      obtain ⟨item, f₁, xs, size, f₂, hitem, -⟩ := decodeItems_succ_eq_some (forRange_eq_some h).2
      have hreads := decodeItem_reads hcall hitem
      have hlist : ∀ x, x ≠ "_" → ((f.set field (.list [])).set "_" (.int (0 : Nat))).val x =
          if x = field then some (.list []) else f.val x := by
        intro x hx
        rw [Frame.val_set, if_neg hx, Frame.val_set]
      have hdata := hlist "data" (by decide)
      have hoffset := hlist "offset" (by decide)
      rw [if_neg fun heq => hreads.data_ne_list [] (hdata.trans (if_pos heq))] at hdata
      rw [if_neg fun heq => hreads.offset_ne_list [] (hoffset.trans (if_pos heq))] at hoffset
      exact hreads.congr hdata hoffset

/-- An item of a global class. -/
theorem decodeItem_of_global (hcall : Sound call) {subType : TypeName} {item : PyVal}
    (hglobal : ∀ name, subType = .cls name → name ∉ locals)
    (h : M.decodeItem locals call subType f = some (item, g)) :
    ∃ size : Nat, M.wireSize subType = some size ∧ g = f.set "sub_size" (.int size) ∧
      ∃ name attrs, item = .obj name attrs := by
  obtain ⟨b, size, b', name, data, offset, hi, slice, hb, hsize, rfl, hb', hname, -, -, -, -,
    hitem⟩ := decodeItem_eq_some h
  cases subType with
  | cls x =>
      rw [resolveType, resolve_of_notMem (hglobal x rfl)] at hb
      obtain ⟨c, hc, rfl⟩ := Option.map_eq_some_iff.1 hb
      obtain rfl := (find_eq_some hc).2
      rw [wireSizeOf, hc] at hsize
      obtain rfl := Option.some.inj hsize
      exact ⟨c.wireSize, by rw [wireSize, hc]; rfl, rfl, name, hcall.obj _ _ _ hitem⟩
  | _ => exact absurd hb (by simp [resolveType])

end

end

end ReflectPytest
