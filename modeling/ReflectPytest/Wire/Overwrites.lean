import ReflectPytest.Wire.Clashes

set_option autoImplicit false

/-! # Which members are overwritten

A member assigned to a variable that its statement goes on using makes the statement raise, and one
assigned to a variable of a later statement ends up with a value that does not depend on its own. -/

namespace ReflectPytest

open PyStruct PyModule

section

variable {M : PyModule} {locals : List String} {call : String → PyVal → Option PyVal} {f g : Frame}

/-! ## The statement itself -/

/-- The size that is added to the offset is a number, and the item an object. -/
theorem decodeItem_kinds (hcall : Sound call) {subType : TypeName} {item : PyVal}
    (h : M.decodeItem locals call subType f = some (item, g)) :
    (∃ size, g.val "sub_size" = some size ∧ size.IsNumber) ∧
      ∃ name attrs, item = .obj name attrs := by
  obtain ⟨b, size, b', name, data, offset, hi, slice, -, -, rfl, -, -, -, -, hsum, -, hitem⟩ :=
    decodeItem_eq_some h
  exact ⟨⟨size, Frame.val_set_self .., (PyVal.isNumber_of_add? hsum).2.1⟩,
    name, hcall.obj _ _ _ hitem⟩

theorem notMem_usesAfter_forRange (hcall : Sound call) {field : String} {n : Nat}
    {subType : TypeName} (hn : n ≠ 0)
    (h : M.execStmt locals call f (.forRange field n subType) = some g) :
    field ∉ ["_", "sub_size", "item", "data", "offset"] := by
  obtain ⟨n, rfl⟩ := Nat.exists_eq_succ_of_ne_zero hn
  obtain ⟨item, f₁, xs, size, f₂, hitem, hxs, -⟩ := decodeItems_succ_eq_some (forRange_eq_some h).2
  obtain ⟨⟨size', hsize, hnumber⟩, name, attrs, rfl⟩ := decodeItem_kinds hcall hitem
  have hreads := decodeItem_reads hcall.useless hitem
  simp only [List.mem_cons, List.not_mem_nil, or_false]
  rintro (rfl | rfl | rfl | rfl | rfl)
  · have hround : f₁.val "_" = some (.int (0 : Nat)) :=
      (Frame.val_congr (decodeItem_frame hitem (by decide))).trans (Frame.val_set_self ..)
    rw [Frame.val_set, if_neg (by decide), hround] at hxs
    exact absurd hxs (by simp)
  · rw [Frame.val_set, if_neg (by decide), hsize] at hxs
    exact PyVal.not_isNumber_list xs (Option.some.inj hxs ▸ hnumber)
  · rw [Frame.val_set_self] at hxs
    exact absurd hxs (by simp)
  · exact hreads.data_ne_list [] (by simp [Frame.val_set])
  · exact hreads.offset_ne_list [] (by simp [Frame.val_set])

theorem notMem_usesAfter_nested (hcall : Sound call) {field : String} {subType : TypeName}
    (h : M.execStmt locals call f (.nested field subType) = some g) :
    field ∉ ["sub_size", "offset"] := by
  obtain ⟨item, f₁, size, hitem, hsize, hadvance⟩ := nested_eq_some h
  obtain ⟨-, name, attrs, rfl⟩ := decodeItem_kinds hcall hitem
  obtain ⟨offset, v, hoffset, hsum, -⟩ := Frame.advance_eq_some.1 hadvance
  obtain ⟨hleft, hright, -⟩ := PyVal.isNumber_of_add? hsum
  simp only [List.mem_cons, List.not_mem_nil, or_false]
  rintro (rfl | rfl)
  · rw [Frame.val_set_self] at hsize
    exact PyVal.not_isNumber_obj name attrs (Option.some.inj hsize ▸ hright)
  · rw [Frame.val_set_self] at hoffset
    exact PyVal.not_isNumber_obj name attrs (Option.some.inj hoffset ▸ hleft)

/-! ## What a statement leaves in its variables -/

/-- A nested object leaves its size. -/
theorem nested_leaves (hcall : Sound call) {field : String} {subType : TypeName}
    (hglobal : ∀ name, subType = .cls name → name ∉ locals)
    (h : M.execStmt locals call f (.nested field subType) = some g) :
    ∃ size : Nat, M.wireSize subType = some size ∧ g.val "sub_size" = some (.int size) ∧
      ∀ o : Int, f.val "offset" = some (.int o) → g.val "offset" = some (.int (o + size)) := by
  have hfield := notMem_usesAfter_nested hcall h
  simp only [List.mem_cons, List.not_mem_nil, or_false, not_or] at hfield
  obtain ⟨item, f₁, size, hitem, hsize, hadvance⟩ := nested_eq_some h
  obtain ⟨size', hwire, rfl, -⟩ := decodeItem_of_global hcall hglobal hitem
  rw [Frame.val_set, if_neg (Ne.symm hfield.1), Frame.val_set_self] at hsize
  obtain rfl := Option.some.inj hsize
  obtain ⟨offset, v, hoffset, hsum, rfl⟩ := Frame.advance_eq_some.1 hadvance
  refine ⟨size', hwire, ?_, fun o ho => ?_⟩
  · simp [Frame.val_set, Ne.symm hfield.1]
  · simp only [Frame.val_set, Ne.symm hfield.2, String.reduceEq, if_false, ho,
      Option.some.injEq] at hoffset
    subst hoffset
    rw [PyVal.add?_int, Option.some.injEq] at hsum
    rw [Frame.val_set_self, hsum]

/-- A round of a loop leaves its number, the size and the item. -/
theorem decodeItems_round (hcall : Sound call) {field : String} {subType : TypeName} {n i : Nat}
    (hglobal : ∀ name, subType = .cls name → name ∉ locals)
    (hfield : field ∉ ["_", "sub_size", "item", "data", "offset"])
    (h : M.decodeItems locals call field subType (n + 1) i f = some g) :
    ∃ (size : Nat) (item : PyVal) (xs : List PyVal) (f₂ : Frame), M.wireSize subType = some size ∧
      f₂.val "_" = some (.int i) ∧ f₂.val "sub_size" = some (.int size) ∧
      f₂.val "item" = some item ∧ f₂.val field = some (.list (xs ++ [item])) ∧
      (∀ o : Int, f.val "offset" = some (.int o) → f₂.val "offset" = some (.int (o + size))) ∧
      M.decodeItems locals call field subType n (i + 1) f₂ = some g := by
  simp only [List.mem_cons, List.not_mem_nil, or_false, not_or] at hfield
  obtain ⟨h₁, h₂, h₃, -, h₅⟩ := hfield
  obtain ⟨item, f₁, xs, size, f₂, hitem, -, hsize, hadvance, hrest⟩ := decodeItems_succ_eq_some h
  obtain ⟨size', hwire, rfl, -⟩ := decodeItem_of_global hcall hglobal hitem
  simp only [Frame.val_set, Ne.symm h₂, String.reduceEq, if_false, if_true,
    Option.some.injEq] at hsize
  subst hsize
  obtain ⟨offset, v, hoffset, hsum, rfl⟩ := Frame.advance_eq_some.1 hadvance
  refine ⟨size', item, xs, _, hwire, ?_, ?_, ?_, ?_, fun o ho => ?_, hrest⟩
  · simp [Frame.val_set, Ne.symm h₁]
  · simp [Frame.val_set, Ne.symm h₂]
  · simp [Frame.val_set, Ne.symm h₃]
  · simp [Frame.val_set, h₅]
  · simp only [Frame.val_set, Ne.symm h₅, String.reduceEq, if_false, ho,
      Option.some.injEq] at hoffset
    subst hoffset
    rw [PyVal.add?_int, Option.some.injEq] at hsum
    rw [Frame.val_set_self, hsum]

/-- So does the loop, of its last round. -/
theorem decodeItems_leaves (hcall : Sound call) {field : String} {subType : TypeName}
    (hglobal : ∀ name, subType = .cls name → name ∉ locals)
    (hfield : field ∉ ["_", "sub_size", "item", "data", "offset"]) : ∀ {n i : Nat} {f : Frame},
    M.decodeItems locals call field subType (n + 1) i f = some g →
    ∃ (size : Nat) (item : PyVal) (xs : List PyVal), M.wireSize subType = some size ∧
      g.val "_" = some (.int (i + n : Nat)) ∧ g.val "sub_size" = some (.int size) ∧
      g.val "item" = some item ∧ g.val field = some (.list (xs ++ [item]))
  | 0, i, f, h => by
      obtain ⟨size, item, xs, f₂, hwire, h₁, h₂, h₃, h₄, -, hrest⟩ :=
        decodeItems_round hcall hglobal hfield h
      obtain rfl := Option.some.inj hrest
      exact ⟨size, item, xs, hwire, h₁, h₂, h₃, h₄⟩
  | n + 1, i, f, h => by
      obtain ⟨-, -, -, f₂, -, -, -, -, -, -, hrest⟩ := decodeItems_round hcall hglobal hfield h
      obtain ⟨size, item, xs, hwire, h₁, h₂, h₃, h₄⟩ :=
        decodeItems_leaves hcall hglobal hfield hrest
      refine ⟨size, item, xs, hwire, ?_, h₂, h₃, h₄⟩
      rw [h₁, Nat.add_assoc, Nat.add_comm 1 n]

theorem decodeItems_offset (hcall : Sound call) {field : String} {subType : TypeName}
    (hglobal : ∀ name, subType = .cls name → name ∉ locals)
    (hfield : field ∉ ["_", "sub_size", "item", "data", "offset"]) :
    ∀ {n i : Nat} {f : Frame} {o : Int}, M.decodeItems locals call field subType n i f = some g →
    f.val "offset" = some (.int o) → ∃ o', g.val "offset" = some (.int o') ∧ o ≤ o'
  | 0, i, f, o, h, ho => by
      obtain rfl := Option.some.inj h
      exact ⟨o, ho, le_rfl⟩
  | n + 1, i, f, o, h, ho => by
      obtain ⟨size, -, -, f₂, -, -, -, -, -, hoffset, hrest⟩ :=
        decodeItems_round hcall hglobal hfield h
      obtain ⟨o', ho', hle⟩ := decodeItems_offset hcall hglobal hfield hrest (hoffset o ho)
      exact ⟨o', ho', by omega⟩

/-- An integer offset grows. -/
theorem execStmt_offset (hcall : Sound call) {s : UnpackStmt} (hs : s.Proper)
    (hglobals : ∀ x ∈ s.globals, x ∉ locals) (htarget : "offset" ∉ s.targets)
    (h : M.execStmt locals call f s = some g) {o : Int} (ho : f.val "offset" = some (.int o)) :
    ∃ o', g.val "offset" = some (.int o') ∧ o ≤ o' := by
  cases s with
  | unpackFrom targets fmt =>
      obtain ⟨-, data, offset, vals, new, -, -, -, hassign, hadvance⟩ := unpackFrom_eq_some h
      have hkeep : f.setAll new "offset" = f "offset" :=
        f.setAll_of_notMem (names_of_assign hassign ▸ htarget)
      obtain ⟨offset', v, hoffset, hsum, rfl⟩ := Frame.advance_eq_some.1 hadvance
      rw [Frame.val_congr hkeep, ho] at hoffset
      obtain rfl := Option.some.inj hoffset
      rw [PyVal.add?_int, Option.some.injEq] at hsum
      exact ⟨_, by rw [Frame.val_set_self, hsum], by omega⟩
  | forRange field n subType =>
      have hfield := notMem_usesAfter_forRange hcall (hs.items field n subType rfl) h
      have hglobal : ∀ name, subType = .cls name → name ∉ locals := by
        rintro name rfl
        exact hglobals name (by simp [UnpackStmt.globals])
      have hne : field ≠ "offset" := fun heq => htarget (by simp [UnpackStmt.targets, heq])
      refine decodeItems_offset hcall hglobal hfield (forRange_eq_some h).2 ?_
      rw [Frame.val_set, if_neg (Ne.symm hne), ho]
  | nested field subType =>
      have hglobal : ∀ name, subType = .cls name → name ∉ locals := by
        rintro name rfl
        exact hglobals name (by simp [UnpackStmt.globals])
      obtain ⟨size, -, -, hoffset⟩ := nested_leaves hcall hglobal h
      exact ⟨_, hoffset o ho, by omega⟩

theorem execStmts_offset (hcall : Sound call) {stmts : List UnpackStmt}
    (hstmts : ∀ s ∈ stmts, s.Proper ∧ (∀ x ∈ s.globals, x ∉ locals) ∧ "offset" ∉ s.targets)
    (h : M.execStmts locals call stmts f = some g) {o : Int}
    (ho : f.val "offset" = some (.int o)) : ∃ o', g.val "offset" = some (.int o') ∧ o ≤ o' := by
  induction stmts generalizing f o with
  | nil =>
      obtain rfl := Option.some.inj h
      exact ⟨o, ho, le_rfl⟩
  | cons s rest ih =>
      obtain ⟨f', hs, hrest⟩ := Option.bind_eq_some_iff.1 h
      obtain ⟨hproper, hglobals, htarget⟩ := hstmts s List.mem_cons_self
      obtain ⟨o₁, ho₁, hle₁⟩ := execStmt_offset hcall hproper hglobals htarget hs ho
      obtain ⟨o₂, ho₂, hle₂⟩ := ih (fun s' hs' => hstmts s' (List.mem_cons_of_mem _ hs')) hrest ho₁
      exact ⟨o₂, ho₂, hle₁.trans hle₂⟩

end

/-! ## Members in variables of later statements -/

theorem UnpackStmt.temporaries_subset_uses (s : UnpackStmt) : s.temporaries ⊆ s.uses := by
  cases s <;> simp [temporaries, uses]

theorem UnpackStmt.uses_subset (s : UnpackStmt) :
    s.uses ⊆ ["_", "sub_size", "item", "data", "offset"] := by
  cases s <;> simp [uses]

section

variable {M : PyModule} {locals : List String} {call call' : String → PyVal → Option PyVal}
  {f f' g g' : Frame} {x : String}

/-- What a statement leaves in a variable does not depend on what was there: two runs agree on it,
    for a loop if they agree on its list. -/
theorem execStmt_determines (hcall : Sound call) (hcall' : Sound call') {s : UnpackStmt}
    (hs : s.Proper) (hglobals : ∀ x ∈ s.globals, x ∉ locals) (hx : x ∈ s.uses) (hdata : x ≠ "data")
    (hoffset : x ≠ "offset") (h : M.execStmt locals call f s = some g)
    (h' : M.execStmt locals call' f' s = some g')
    (hlist : ∀ field n subType, s = .forRange field n subType → g.val field = g'.val field) :
    g.val x = g'.val x := by
  cases s with
  | unpackFrom targets fmt =>
      simp only [UnpackStmt.uses, List.mem_cons, List.not_mem_nil, or_false] at hx
      exact absurd hx (not_or.2 ⟨hdata, hoffset⟩)
  | nested field subType =>
      have hglobal : ∀ name, subType = .cls name → name ∉ locals := by
        rintro name rfl
        exact hglobals name (by simp [UnpackStmt.globals])
      obtain ⟨size, hwire, hsize, -⟩ := nested_leaves hcall hglobal h
      obtain ⟨size', hwire', hsize', -⟩ := nested_leaves hcall' hglobal h'
      obtain rfl := Option.some.inj (hwire.symm.trans hwire')
      obtain rfl : x = "sub_size" := by simpa [UnpackStmt.uses, hdata, hoffset] using hx
      rw [hsize, hsize']
  | forRange field n subType =>
      have hglobal : ∀ name, subType = .cls name → name ∉ locals := by
        rintro name rfl
        exact hglobals name (by simp [UnpackStmt.globals])
      have hn := hs.items field n subType rfl
      have hfield := notMem_usesAfter_forRange hcall hn h
      obtain ⟨n, rfl⟩ := Nat.exists_eq_succ_of_ne_zero hn
      obtain ⟨size, item, xs, hwire, h₁, h₂, h₃, h₄⟩ :=
        decodeItems_leaves hcall hglobal hfield (forRange_eq_some h).2
      obtain ⟨size', item', xs', hwire', h₁', h₂', h₃', h₄'⟩ :=
        decodeItems_leaves hcall' hglobal hfield (forRange_eq_some h').2
      obtain rfl := Option.some.inj (hwire.symm.trans hwire')
      have hlists := hlist field (n + 1) subType rfl
      rw [h₄, h₄', Option.some_inj, PyVal.list.injEq] at hlists
      obtain ⟨-, rfl⟩ := List.append_inj' hlists rfl |>.imp id List.singleton_inj.1
      have hnames : x = "_" ∨ x = "sub_size" ∨ x = "item" := by
        simpa [UnpackStmt.uses, hdata, hoffset] using hx
      obtain rfl | rfl | rfl := hnames
      · rw [h₁, h₁']
      · rw [h₂, h₂']
      · rw [h₃, h₃']

/-- **A variable of a statement ends up with a value that the members after it determine.** -/
theorem execStmts_determines (hcall : Sound call) (hcall' : Sound call') {stmts : List UnpackStmt}
    (hstmts : ∀ s ∈ stmts, s.Proper ∧ ∀ x ∈ s.globals, x ∉ locals)
    (hnodup : (stmts.flatMap UnpackStmt.targets).Nodup) (hx : ∃ s ∈ stmts, x ∈ s.uses)
    (hdata : x ≠ "data") (hoffset : x ≠ "offset") (hx' : x ∉ stmts.flatMap UnpackStmt.targets)
    (h : M.execStmts locals call stmts f = some g)
    (h' : M.execStmts locals call' stmts f' = some g')
    (hagree : ∀ y ∈ stmts.flatMap UnpackStmt.targets, g.val y = g'.val y) :
    g.val x = g'.val x := by
  induction stmts generalizing f f' with
  | nil => exact absurd hx (by simp)
  | cons s rest ih =>
      rw [List.flatMap_cons] at hnodup hx' hagree
      obtain ⟨-, hnodup', hdisjoint⟩ := List.nodup_append'.1 hnodup
      obtain ⟨f₁, hs, hrest⟩ := Option.bind_eq_some_iff.1 h
      obtain ⟨f₁', hs', hrest'⟩ := Option.bind_eq_some_iff.1 h'
      have hxrest : x ∉ rest.flatMap UnpackStmt.targets := fun hmem =>
        hx' (List.mem_append_right _ hmem)
      by_cases hlater : ∃ s' ∈ rest, x ∈ s'.uses
      · exact ih (fun s' hs' => hstmts s' (List.mem_cons_of_mem _ hs')) hnodup' hlater hxrest hrest
          hrest' fun y hy => hagree y (List.mem_append_right _ hy)
      · -- the last statement that uses the variable: nothing changes it any more, or the list
        have huses : x ∈ s.uses := by
          obtain ⟨s', hmem, hx⟩ := hx
          rcases List.mem_cons.1 hmem with rfl | hmem
          · exact hx
          · exact absurd ⟨s', hmem, hx⟩ hlater
        have hkeep : ∀ y, y ∉ rest.flatMap UnpackStmt.targets →
            (∀ s' ∈ rest, y ∉ s'.temporaries) → g.val y = f₁.val y ∧ g'.val y = f₁'.val y := by
          intro y hy hy'
          have hmem : ∀ s' ∈ rest, y ∉ s'.targets ∧ y ∉ s'.temporaries := fun s' hs' =>
            ⟨fun ht => hy (List.mem_flatMap.2 ⟨s', hs', ht⟩), hy' s' hs'⟩
          exact ⟨Frame.val_congr ((execStmts_frame hrest).2 y hmem),
            Frame.val_congr ((execStmts_frame hrest').2 y hmem)⟩
        obtain ⟨hg, hg'⟩ := hkeep x hxrest fun s' hs' ht =>
          hlater ⟨s', hs', s'.temporaries_subset_uses ht⟩
        obtain ⟨hproper, hglobals⟩ := hstmts s List.mem_cons_self
        rw [hg, hg']
        refine execStmt_determines hcall hcall' hproper hglobals huses hdata hoffset hs hs' ?_
        rintro field n subType rfl
        have hfield := notMem_usesAfter_forRange hcall (hproper.items field n subType rfl) hs
        have hmem : field ∈ (UnpackStmt.forRange field n subType).targets :=
          List.mem_singleton_self field
        obtain ⟨hlist, hlist'⟩ := hkeep field (fun hmem' => hdisjoint hmem hmem') fun s' hs' ht =>
          hfield (s'.uses_subset (s'.temporaries_subset_uses ht))
        rw [← hlist, ← hlist']
        exact hagree field (List.mem_append_left _ hmem)

end

/-! ## The offsets of the members -/

/-- How far a statement moves the offset. -/
def UnpackStmt.width (M : PyModule) : UnpackStmt → Nat
  | .unpackFrom _ fmt => calcsize fmt
  | .forRange _ n subType => n * (M.wireSize subType).getD 0
  | .nested _ subType => (M.wireSize subType).getD 0

section

variable {M : PyModule} {callU : String → List UInt8 → Option PyVal} {data : List UInt8}
  {l l' : Locals}

theorem offset_of_unpackNested {subType : TypeName} {offset next : Nat} {v : PyVal}
    (h : M.unpackNested callU data subType offset = some (v, next)) :
    next = offset + (M.wireSize subType).getD 0 := by
  cases subType with
  | cls name =>
      obtain ⟨size, hsize, h⟩ := Option.bind_eq_some_iff.1 h
      obtain ⟨item, -, heq⟩ := Option.map_eq_some_iff.1 h
      rw [hsize, Option.getD_some]
      exact (Prod.mk.inj heq).2.symm
  | _ => exact absurd h (by simp [unpackNested])

theorem offset_of_unpackItems {subType : TypeName} {n offset next : Nat} {xs : List PyVal}
    (h : M.unpackItems callU data subType n offset = some (xs, next)) :
    next = offset + n * (M.wireSize subType).getD 0 := by
  induction n generalizing offset xs with
  | zero =>
      obtain ⟨-, rfl⟩ := Prod.mk.inj (Option.some.inj h)
      rw [Nat.zero_mul, Nat.add_zero]
  | succ n ih =>
      obtain ⟨⟨item, offset'⟩, hitem, h⟩ := Option.bind_eq_some_iff.1 h
      obtain ⟨⟨items, offset''⟩, hitems, heq⟩ := Option.map_eq_some_iff.1 h
      obtain ⟨-, rfl⟩ := Prod.mk.inj heq
      rw [ih hitems, offset_of_unpackNested hitem, Nat.succ_mul]
      omega

theorem offset_of_runUnpackStmt {s : UnpackStmt} (h : M.runUnpackStmt callU data l s = some l') :
    l'.offset = l.offset + s.width M := by
  cases s with
  | unpackFrom targets fmt =>
      obtain ⟨vals, -, h⟩ := Option.bind_eq_some_iff.1 h
      obtain ⟨new, -, rfl⟩ := Option.map_eq_some_iff.1 h
      rfl
  | forRange field n subType =>
      obtain ⟨⟨items, next⟩, hitems, rfl⟩ := Option.map_eq_some_iff.1 h
      exact offset_of_unpackItems hitems
  | nested field subType =>
      obtain ⟨⟨item, next⟩, hitem, rfl⟩ := Option.map_eq_some_iff.1 h
      exact offset_of_unpackNested hitem

theorem get_of_runUnpackStmt {s : UnpackStmt} (h : M.runUnpackStmt callU data l s = some l')
    {x : String} (hx : x ∉ s.targets) : get l'.fields x = get l.fields x := by
  cases s with
  | unpackFrom targets fmt =>
      obtain ⟨vals, -, h⟩ := Option.bind_eq_some_iff.1 h
      obtain ⟨new, hnew, rfl⟩ := Option.map_eq_some_iff.1 h
      have hnone : new.reverse.lookup x = none := by
        refine List.lookup_eq_none_iff.2 fun a ha => bne_iff_ne.2 ?_
        rintro rfl
        refine hx ?_
        rw [UnpackStmt.targets, ← names_of_assign hnew]
        exact List.mem_map_of_mem (List.mem_reverse.1 ha)
      rw [PyModule.get, List.lookup_append, hnone, Option.none_or, PyModule.get]
  | forRange field n subType =>
      obtain ⟨r, -, rfl⟩ := Option.map_eq_some_iff.1 h
      rw [get_cons, if_neg fun heq => hx (by simp [UnpackStmt.targets, heq])]
  | nested field subType =>
      obtain ⟨r, -, rfl⟩ := Option.map_eq_some_iff.1 h
      rw [get_cons, if_neg fun heq => hx (by simp [UnpackStmt.targets, heq])]

/-- A member keeps its value when others are read. -/
theorem get_of_runUnpack {stmts : List UnpackStmt} (h : M.runUnpack callU data stmts l = some l')
    {x : String} (hx : x ∉ stmts.flatMap UnpackStmt.targets) :
    get l'.fields x = get l.fields x := by
  induction stmts generalizing l with
  | nil =>
      obtain rfl := Option.some.inj h
      rfl
  | cons s rest ih =>
      rw [List.flatMap_cons] at hx
      obtain ⟨l₁, hs, hrest⟩ := Option.bind_eq_some_iff.1 h
      rw [ih hrest fun hmem => hx (List.mem_append_right _ hmem),
        get_of_runUnpackStmt hs fun hmem => hx (List.mem_append_left _ hmem)]

end

/-! ## Members in `data` and `offset` -/

theorem exists_lookup_of_mem {vals : List (String × PyVal)} {x : String}
    (h : x ∈ vals.map Prod.fst) : ∃ v, vals.reverse.lookup x = some v ∧ (x, v) ∈ vals := by
  cases hlookup : vals.reverse.lookup x with
  | none =>
      obtain ⟨a, ha, rfl⟩ := List.mem_map.1 h
      have hother := List.lookup_eq_none_iff.1 hlookup a (List.mem_reverse.2 ha)
      exact absurd hother (by simp)
  | some v =>
      obtain ⟨l₁, l₂, hsplit, -⟩ := List.lookup_eq_some_iff.1 hlookup
      have hmem : (x, v) ∈ vals.reverse := hsplit ▸ List.mem_append_right _ List.mem_cons_self
      exact ⟨v, rfl, List.mem_reverse.1 hmem⟩

/-- A sum with a positive integer is something else. -/
def Drifts (v : PyVal) : Prop := ∀ n : Int, 0 < n → v.add? (.int n) ≠ some v

section

variable {M : PyModule} {locals : List String} {call : String → PyVal → Option PyVal}
  {callV : String → List UInt8 → Option PyVal} {data : List UInt8} {f g : Frame}
  {rest : List UnpackStmt}

/-- After a single value called `data` there is nothing to read: its bytes end where it ends. -/
theorem data_notMem_unpackFrom (hcall : Sound call) {targets : List String} {fmt : List Item}
    {s' : UnpackStmt} (hs' : s'.Proper) {f₁ f₂ : Frame}
    (h : M.execStmt locals call f (.unpackFrom targets fmt) = some f₁)
    (h' : M.execStmt locals call f₁ s' = some f₂) {o : Nat}
    (ho : f.val "offset" = some (.int o)) (hoffset : "offset" ∉ targets) : "data" ∉ targets := by
  have hreads := execStmt_reads hcall.useless hs' h'
  intro hmem
  obtain ⟨-, data, offset, vals, new, -, -, hvals, hassign, hadvance⟩ := unpackFrom_eq_some h
  have hnames := names_of_assign hassign
  obtain ⟨v, hlookup, hv⟩ := exists_lookup_of_mem (x := "data") (hnames ▸ hmem)
  obtain ⟨offset', w, hoffset', hsum, rfl⟩ := Frame.advance_eq_some.1 hadvance
  rw [Frame.val_congr (f.setAll_of_notMem (hnames ▸ hoffset)), ho, Option.some_inj] at hoffset'
  subst hoffset'
  obtain rfl := Option.some.inj hsum
  have hdata : ((f.setAll new).set "offset" (.int (o + calcsize fmt))).val "data" = some v := by
    rw [Frame.val_set, if_neg (by decide), Frame.val_eq_some.2 (f.setAll_of_lookup hlookup)]
  obtain ⟨data', hdata', huseless⟩ := hreads.data
  obtain rfl := Option.some.inj (hdata.symm.trans hdata')
  obtain ⟨bs, rfl⟩ := unpack_of_unpackFrom? hvals
  rcases mem_unpack (mem_of_assign hassign _ hv) with ⟨b, rfl, hlen⟩ | hnumber
  · have hroom := hreads.room b (o + calcsize fmt) hdata (Frame.val_set_self ..)
    omega
  · refine huseless fun b hb => ?_
    rw [hb] at hnumber
    exact absurd hnumber (by simp [PyVal.IsNumber, PyVal.index?, PyVal.float?])

/-- After a member called `data` there is nothing to read. -/
theorem data_notMem_targets (hcall : Sound call) {s s' : UnpackStmt} (hs : s.Proper)
    (hs' : s'.Proper) {f₁ f₂ : Frame} (h : M.execStmt locals call f s = some f₁)
    (h' : M.execStmt locals call f₁ s' = some f₂) {o : Nat}
    (ho : f.val "offset" = some (.int o)) (hoffset : "offset" ∉ s.targets) :
    "data" ∉ s.targets := by
  cases s with
  | unpackFrom targets fmt => exact data_notMem_unpackFrom hcall hs' h h' ho hoffset
  | forRange field n subType =>
      intro hmem
      have hfield := notMem_usesAfter_forRange hcall (hs.items field n subType rfl) h
      exact hfield (List.mem_singleton.1 hmem ▸ by simp)
  | nested field subType =>
      intro hmem
      obtain rfl := List.mem_singleton.1 hmem
      obtain ⟨item, f', size, hitem, -, hadvance⟩ := nested_eq_some h
      obtain ⟨-, name, attrs, rfl⟩ := decodeItem_kinds hcall hitem
      obtain ⟨data', hdata', huseless⟩ := (execStmt_reads hcall.useless hs' h').data
      rw [Frame.val_congr (advance_frame hadvance (by decide)), Frame.val_set_self] at hdata'
      exact huseless (Option.some.inj hdata' ▸ PyVal.useless_obj name attrs)

/-- A member called `offset` drifts away with the offset. -/
theorem offset_notMem_targets (hcall : Sound call) {targets : List String} {fmt : List Item}
    (hstmts : ∀ s ∈ UnpackStmt.unpackFrom targets fmt :: rest,
      s.Proper ∧ ∀ x ∈ s.globals, x ∉ locals)
    (hdata : f.val "data" = some (.bytes data)) {l l' : Locals}
    (ho : f.val "offset" = some (.int l.offset))
    (h : M.execStmts locals call (.unpackFrom targets fmt :: rest) f = some g)
    (hplain : M.runUnpack callV data (.unpackFrom targets fmt :: rest) l = some l')
    (hrest : "offset" ∈ targets → "offset" ∉ rest.flatMap UnpackStmt.targets)
    (hfinal : ∀ w, get l'.fields "offset" = some w → g.val "offset" = some w ∧ Drifts w) :
    "offset" ∉ targets := by
  intro hmem
  obtain ⟨f₁, hs, hrun⟩ := Option.bind_eq_some_iff.1 h
  obtain ⟨l₁, hs', hrun'⟩ := Option.bind_eq_some_iff.1 hplain
  obtain ⟨-, data', offset, vals, new, hdata', hoffset, hvals, hassign, hadvance⟩ :=
    unpackFrom_eq_some hs
  -- both runs decode the same member
  obtain rfl := Option.some.inj (hdata.symm.trans hdata')
  obtain rfl := Option.some.inj (ho.symm.trans hoffset)
  rw [unpackFrom?_bytes] at hvals
  rw [runUnpackStmt, hvals, Option.bind_some, hassign, Option.map_some, Option.some_inj] at hs'
  subst hs'
  obtain ⟨w, hlookup, -⟩ := exists_lookup_of_mem (x := "offset") (names_of_assign hassign ▸ hmem)
  obtain ⟨hg, hdrifts⟩ := hfinal w (by
    rw [get_of_runUnpack hrun' (hrest hmem), PyModule.get, List.lookup_append, hlookup,
      Option.some_or])
  obtain ⟨offset, u, hoffset, hsum, rfl⟩ := Frame.advance_eq_some.1 hadvance
  rw [Frame.val_eq_some.2 (f.setAll_of_lookup hlookup), Option.some_inj] at hoffset
  subst hoffset
  have hpos := (hstmts _ List.mem_cons_self).1.calcsize targets fmt rfl
  rcases PyVal.add?_int_right hsum with ⟨i, hi, rfl⟩ | ⟨-, x, rfl⟩
  · -- an integer grows on
    obtain ⟨j, hj, hle⟩ := execStmts_offset hcall (fun s hs => by
      obtain ⟨hproper, hglobals⟩ := hstmts s (List.mem_cons_of_mem _ hs)
      exact ⟨hproper, hglobals, fun ht => hrest hmem (List.mem_flatMap.2 ⟨s, hs, ht⟩)⟩) hrun
      (Frame.val_set_self ..)
    obtain rfl := Option.some.inj (hj.symm.trans hg)
    obtain rfl := Option.some.inj hi
    omega
  · -- and nothing can be read at an offset that is a float
    cases rest with
    | nil =>
        obtain rfl := Option.some.inj hrun
        rw [Frame.val_set_self, Option.some_inj] at hg
        exact hdrifts (calcsize fmt) (by omega) (hg ▸ hsum)
    | cons s rest =>
        obtain ⟨f₂, hs, -⟩ := Option.bind_eq_some_iff.1 hrun
        have hproper := (hstmts s (List.mem_cons_of_mem _ List.mem_cons_self)).1
        obtain ⟨offset, hoffset, hindex⟩ := (execStmt_reads hcall.useless hproper hs).offset
        rw [Frame.val_set_self] at hoffset
        rw [← Option.some.inj hoffset] at hindex
        exact absurd hindex Bool.false_ne_true

/-! ## All members -/

/-- What is known of the statements before their variables are looked at. -/
structure Arranged (locals : List String) (stmts : List UnpackStmt) : Prop where
  proper : ∀ s ∈ stmts, s.Proper
  globals : ∀ s ∈ stmts, ∀ x ∈ s.globals, x ∉ locals
  cls : ∀ s ∈ stmts, "cls" ∉ s.targets
  nodup : (stmts.flatMap UnpackStmt.targets).Nodup
  later : stmts.Pairwise fun s s' => ∀ x ∈ s.targets, x ≠ "data" → x ≠ "offset" → x ∉ s'.uses

theorem Arranged.tail {s : UnpackStmt} (h : Arranged locals (s :: rest)) :
    Arranged locals rest := by
  have hnodup := h.nodup
  rw [List.flatMap_cons] at hnodup
  exact ⟨fun s' hs' => h.proper s' (List.mem_cons_of_mem _ hs'),
    fun s' hs' => h.globals s' (List.mem_cons_of_mem _ hs'),
    fun s' hs' => h.cls s' (List.mem_cons_of_mem _ hs'), (List.nodup_append'.1 hnodup).2.1,
    (List.pairwise_cons.1 h.later).2⟩

theorem UnpackStmt.offset_mem_usesAfter (s : UnpackStmt) : "offset" ∈ s.usesAfter := by
  cases s <;> simp [usesAfter]

/-- The members of one statement. -/
theorem unclobbered_targets (hcall : Sound call) {s : UnpackStmt}
    (hs : Arranged locals (s :: rest)) (hdata : f.val "data" = some (.bytes data)) {l l' : Locals}
    (ho : f.val "offset" = some (.int l.offset))
    (h : M.execStmts locals call (s :: rest) f = some g)
    (hplain : M.runUnpack callV data (s :: rest) l = some l')
    (hfinal : ∀ w, get l'.fields "offset" = some w → g.val "offset" = some w ∧ Drifts w) :
    ∀ x ∈ s.targets, x ≠ "cls" ∧ x ∉ s.usesAfter ∧ ∀ s' ∈ rest, x ∉ s'.uses := by
  obtain ⟨f₁, hfirst, hrun⟩ := Option.bind_eq_some_iff.1 h
  have hproper := hs.proper s List.mem_cons_self
  have hafter : ∀ x ∈ s.targets, x ∉ s.usesAfter := by
    intro x hx
    cases s with
    | unpackFrom targets fmt =>
        have hnodup := hs.nodup
        rw [List.flatMap_cons] at hnodup
        have hoffset : "offset" ∉ targets := offset_notMem_targets hcall
          (fun s' hs' => ⟨hs.proper s' hs', hs.globals s' hs'⟩) hdata ho h hplain
          (fun hmem hmem' => (List.nodup_append'.1 hnodup).2.2 hmem hmem') hfinal
        rw [UnpackStmt.usesAfter, List.mem_singleton]
        exact fun heq => hoffset (heq ▸ hx)
    | forRange field n subType =>
        obtain rfl := List.mem_singleton.1 hx
        exact notMem_usesAfter_forRange hcall (hproper.items _ n subType rfl) hfirst
    | nested field subType =>
        obtain rfl := List.mem_singleton.1 hx
        exact notMem_usesAfter_nested hcall hfirst
  have hoffset : "offset" ∉ s.targets := fun hmem => hafter _ hmem s.offset_mem_usesAfter
  intro x hx
  refine ⟨fun heq => hs.cls s List.mem_cons_self (heq ▸ hx), hafter x hx, fun s' hs' => ?_⟩
  refine (List.pairwise_cons.1 hs.later).1 s' hs' x hx ?_ fun heq => hoffset (heq ▸ hx)
  rintro rfl
  cases rest with
  | nil => exact absurd hs' (by simp)
  | cons s₁ rest =>
      obtain ⟨f₂, hsecond, -⟩ := Option.bind_eq_some_iff.1 hrun
      exact data_notMem_targets hcall hproper
        (hs.proper s₁ (List.mem_cons_of_mem _ List.mem_cons_self)) hfirst hsecond ho hoffset hx

/-- **A run that returns the members as they are has overwritten none of them.** -/
theorem unclobbered_of_run (hcall : Sound call) (hstruct : M.find "struct" = none)
    (hrange : M.find "range" = none) {name : String} : ∀ {stmts : List UnpackStmt}
    {done : List String} {f : Frame} {l l₀ l' : Locals}, Arranged locals stmts →
    (∀ x ∈ done, ∀ s ∈ stmts, x ∉ s.uses) → Agrees name data stmts done f l₀ →
    l₀.offset = l.offset → M.execStmts locals call stmts f = some g →
    M.runUnpack callV data stmts l = some l' →
    (∀ w, get l'.fields "offset" = some w → g.val "offset" = some w ∧ Drifts w) →
    Unclobbered stmts
  | [], _, _, _, _, _, _, _, _, _, _, _, _ => trivial
  | s :: rest, done, f, l, l₀, l', hs, hdone, hagrees, hoffset, h, hplain, hfinal => by
      have hdata := hagrees.data (List.cons_ne_nil s rest)
      have ho := hagrees.offset (List.cons_ne_nil s rest)
      have htargets := unclobbered_targets hcall hs hdata (hoffset ▸ ho) h hplain hfinal
      refine ⟨htargets, ?_⟩
      obtain ⟨f₁, hfirst, hrun⟩ := Option.bind_eq_some_iff.1 h
      obtain ⟨l₁, hfirst', hrun'⟩ := Option.bind_eq_some_iff.1 hplain
      have hapart : Apart locals done s rest :=
        ⟨hs.globals s List.mem_cons_self, fun x hx => hdone x hx s List.mem_cons_self,
          hs.cls s List.mem_cons_self, fun x hx => (htargets x hx).2.1,
          fun x hx => (htargets x hx).2.2⟩
      have hrel : Option.Rel (Agrees name data rest (s.targets ++ done))
          (M.execStmt locals call f s) (M.runUnpackStmt (onBytes call) data l₀ s) :=
        execStmt_rel hstruct hrange hapart hagrees
      rw [hfirst] at hrel
      generalize hl : M.runUnpackStmt (onBytes call) data l₀ s = r at hrel
      cases hrel with
      | some hnext =>
          refine unclobbered_of_run hcall hstruct hrange hs.tail (fun x hx s' hs' => ?_) hnext
            ?_ hrun hrun' hfinal
          · rcases List.mem_append.1 hx with hx | hx
            · exact (htargets x hx).2.2 s' hs'
            · exact hdone x hx s' (List.mem_cons_of_mem _ hs')
          · rw [offset_of_runUnpackStmt hl, offset_of_runUnpackStmt hfirst', hoffset]

end

end ReflectPytest
