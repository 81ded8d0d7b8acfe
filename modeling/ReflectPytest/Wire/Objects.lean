import ReflectPytest.Wire.Renaming

set_option autoImplicit false

/-! # The objects that unpack_wire makes

Whatever the names in a generated class clash with, an object that `unpack_wire` returns has the
fields of its class, and so have the objects inside it. A value of the struct that comes back has
no other members, then: all of them are accessible. -/

namespace ReflectPytest

open PyStruct PyModule

/-- All objects in the value have the fields of their classes. -/
inductive Constructed (M : PyModule) : PyVal → Prop where
  | obj {name : String} {attrs : List (String × PyVal)} {c : PyClass} (found : M.find name = some c)
      (names : attrs.map Prod.fst = c.fields.map Prod.fst)
      (inside : ∀ a ∈ attrs, Constructed M a.2) : Constructed M (.obj name attrs)
  | list {xs : List PyVal} (items : ∀ x ∈ xs, Constructed M x) : Constructed M (.list xs)
  | plain {v : PyVal} (obj : ∀ name attrs, v ≠ .obj name attrs) (list : ∀ xs, v ≠ .list xs) :
      Constructed M v

section

variable {M : PyModule}

theorem constructed_of_isNumber {v : PyVal} (h : v.IsNumber) : Constructed M v := by
  refine .plain ?_ ?_
  · rintro name attrs rfl
    exact PyVal.not_isNumber_obj name attrs h
  · rintro xs rfl
    exact PyVal.not_isNumber_list xs h

theorem Constructed.items {xs : List PyVal} (h : Constructed M (.list xs)) :
    ∀ x ∈ xs, Constructed M x := by
  cases h with
  | list items => exact items
  | plain obj list => exact absurd rfl (list xs)

theorem Constructed.slice? {v i j w : PyVal} (h : Constructed M v) (hw : v.slice? i j = some w) :
    Constructed M w := by
  unfold PyVal.slice? at hw
  obtain ⟨lo, -, hw⟩ := Option.bind_eq_some_iff.1 hw
  obtain ⟨hi, -, hw⟩ := Option.bind_eq_some_iff.1 hw
  split at hw
  · obtain rfl := Option.some.inj hw
    exact .plain nofun nofun
  · obtain rfl := Option.some.inj hw
    exact .plain nofun nofun
  · next xs =>
      obtain rfl := Option.some.inj hw
      exact .list fun x hx => h.items x (List.mem_of_mem_take (List.mem_of_mem_drop hx))
  · obtain rfl := Option.some.inj hw
    exact .plain nofun nofun
  · exact absurd hw (by simp)

/-! ## Runs -/

/-- All values in the frame are such. -/
def Frame.Constructed (M : PyModule) (f : Frame) : Prop :=
  ∀ x v, f.val x = some v → ReflectPytest.Constructed M v

section

variable {f g : Frame}

theorem Frame.Constructed.set (hf : f.Constructed M) (x : String) {v : PyVal}
    (hv : ReflectPytest.Constructed M v) : (f.set x v).Constructed M := by
  intro y w h
  rw [Frame.val_set] at h
  split at h
  · exact Option.some.inj h ▸ hv
  · exact hf y w h

theorem Frame.Constructed.setAll (hf : f.Constructed M) {vals : List (String × PyVal)}
    (hvals : ∀ a ∈ vals, ReflectPytest.Constructed M a.2) : (f.setAll vals).Constructed M := by
  induction vals generalizing f with
  | nil => exact hf
  | cons a vals ih =>
      exact ih (hf.set a.1 (hvals a List.mem_cons_self))
        fun b hb => hvals b (List.mem_cons_of_mem _ hb)

theorem Frame.Constructed.advance (hf : f.Constructed M) {n : PyVal} (h : f.advance n = some g) :
    g.Constructed M := by
  obtain ⟨offset, v, -, hv, rfl⟩ := Frame.advance_eq_some.1 h
  exact hf.set _ (constructed_of_isNumber (PyVal.isNumber_of_add? hv).2.2)

variable {locals : List String} {call : String → PyVal → Option PyVal}
  (hcall : ∀ name d v, Constructed M d → call name d = some v → Constructed M v)

include hcall in
theorem decodeItem_constructed (hf : f.Constructed M) {subType : TypeName} {item : PyVal}
    (h : M.decodeItem locals call subType f = some (item, g)) :
    g.Constructed M ∧ Constructed M item := by
  obtain ⟨b, size, b', name, data, offset, hi, slice, -, -, rfl, -, -, hdata, -, hsum, hslice,
    hitem⟩ := decodeItem_eq_some h
  have hg := hf.set "sub_size" (constructed_of_isNumber (PyVal.isNumber_of_add? hsum).2.1)
  exact ⟨hg, hcall name slice item ((hg _ _ hdata).slice? hslice) hitem⟩

include hcall in
theorem decodeItems_constructed {field : String} {subType : TypeName} : ∀ {n i : Nat} {f g : Frame},
    f.Constructed M → M.decodeItems locals call field subType n i f = some g → g.Constructed M
  | 0, _, f, g, hf, h => by
      obtain rfl := Option.some.inj h
      exact hf
  | n + 1, i, f, g, hf, h => by
      obtain ⟨item, f₁, xs, size, f₂, hitem, hxs, -, hadvance, hrest⟩ :=
        decodeItems_succ_eq_some h
      obtain ⟨hf₁, hobject⟩ :=
        decodeItem_constructed hcall (hf.set "_" (constructed_of_isNumber (.inl rfl))) hitem
      have hset : (f₁.set "item" item).Constructed M := hf₁.set "item" hobject
      have hlist : Constructed M (.list (xs ++ [item])) := by
        refine .list fun x hx => ?_
        rcases List.mem_append.1 hx with hx | hx
        · exact (hset _ _ hxs).items x hx
        · exact List.mem_singleton.1 hx ▸ hobject
      exact decodeItems_constructed ((hset.set field hlist).advance hadvance) hrest

include hcall in
theorem execStmt_constructed (hf : f.Constructed M) {s : UnpackStmt}
    (h : M.execStmt locals call f s = some g) : g.Constructed M := by
  cases s with
  | unpackFrom targets fmt =>
      obtain ⟨-, data, offset, vals, new, -, -, hvals, hassign, hadvance⟩ := unpackFrom_eq_some h
      obtain ⟨bs, rfl⟩ := unpack_of_unpackFrom? hvals
      refine (hf.setAll fun a ha => ?_).advance hadvance
      rcases mem_unpack (mem_of_assign hassign a ha) with ⟨b, hb, -⟩ | hnumber
      · rw [hb]
        exact .plain nofun nofun
      · exact constructed_of_isNumber hnumber
  | forRange field n subType =>
      exact decodeItems_constructed hcall (hf.set field (.list (by simp))) (forRange_eq_some h).2
  | nested field subType =>
      obtain ⟨item, f₁, size, hitem, -, hadvance⟩ := nested_eq_some h
      obtain ⟨hf₁, hobject⟩ := decodeItem_constructed hcall hf hitem
      exact (hf₁.set field hobject).advance hadvance

include hcall in
theorem execStmts_constructed {stmts : List UnpackStmt} (hf : f.Constructed M)
    (h : M.execStmts locals call stmts f = some g) : g.Constructed M := by
  induction stmts generalizing f with
  | nil =>
      obtain rfl := Option.some.inj h
      exact hf
  | cons s rest ih =>
      obtain ⟨f', hs, hrest⟩ := Option.bind_eq_some_iff.1 h
      exact ih (execStmt_constructed hcall hf hs) hrest

end

theorem initial_constructed (name : String) {d : PyVal} (hd : Constructed M d) :
    (Frame.initial name d).Constructed M := by
  intro x v h
  rw [Frame.val_eq_some] at h
  unfold Frame.initial at h
  split_ifs at h
  · exact absurd h (by simp)
  · exact Binding.val.inj (Option.some.inj h) ▸ hd
  · obtain rfl := Binding.val.inj (Option.some.inj h)
    exact constructed_of_isNumber (.inl rfl)

theorem names_of_mapM {fields : List (String × TypeName)} {value : String → Option PyVal}
    {attrs : List (String × PyVal)}
    (h : (fields.mapM fun x => (value x.1).map fun v => (x.1, v)) = some attrs) :
    attrs.map Prod.fst = fields.map Prod.fst := by
  induction fields generalizing attrs with
  | nil =>
      obtain rfl := Option.some.inj h
      rfl
  | cons x fields ih =>
      simp only [List.mapM_cons, Option.bind_eq_bind, Option.bind_eq_some_iff,
        Option.map_eq_some_iff, Option.pure_def, Option.some.injEq] at h
      obtain ⟨a, ⟨v, -, rfl⟩, rest, hrest, rfl⟩ := h
      rw [List.map_cons, List.map_cons, ih hrest]

/-- **What `unpack_wire` returns has the fields of its class, at any depth.** -/
theorem constructed_of_unpackWireScoped : ∀ (k : Nat) (name : String) (d v : PyVal),
    Constructed M d → M.unpackWireScoped k name d = some v → Constructed M v
  | 0, _, _, _, _, h => absurd h (by simp [unpackWireScoped])
  | k + 1, name, d, v, hd, h => by
      obtain ⟨c, hc, h⟩ := Option.bind_eq_some_iff.1 h
      obtain ⟨f, hrun, h⟩ := Option.bind_eq_some_iff.1 h
      have hf := execStmts_constructed (constructed_of_unpackWireScoped k)
        (initial_constructed name hd) hrun
      unfold Frame.construct at h
      split at h
      · obtain ⟨attrs, hattrs, rfl⟩ := Option.map_eq_some_iff.1 h
        refine .obj ((find_eq_some hc).2 ▸ hc) (names_of_mapM hattrs) fun a ha => ?_
        exact hf a.1 a.2 (mapM_attrs hattrs a ha)
      · exact absurd h (by simp)

/-! ## Values that come back -/

/-- A value of an object that a member holds. -/
theorem object_of_declared {m : Member} (hkind : m.Kind) {v : PyVal}
    (hv : Declared m.type.isByte (fun x => m.type.HasType x) m.extents v)
    (hconstructed : Constructed M v) {c : String × Members} (hc : m.type.object = some c) :
    ∃ w, (CType.cls c.1 c.2).HasType w ∧ Constructed M w := by
  cases hkind with
  | value item size hemission hpos =>
      exact absurd ((object_of_value hemission).symm.trans hc) (by simp)
  | nested c' hobject hemission htyped =>
      obtain rfl := Option.some.inj (hobject.symm.trans hc)
      exact ⟨v, (htyped v).1 hv, hconstructed⟩
  | items c' takesBytes n hobject hemission htyped =>
      obtain rfl := Option.some.inj (hobject.symm.trans hc)
      obtain ⟨xs, rfl, hlen, hxs⟩ := ((htyped v).1 hv).eq_list
      obtain ⟨x, xs, rfl⟩ := List.exists_cons_of_length_eq_add_one hlen
      exact ⟨x, hxs x List.mem_cons_self, hconstructed.items x List.mem_cons_self⟩

/-- **A value that comes back has accessible members only**, at any depth. -/
theorem visible_of_constructed : ∀ (k : Nat) {c : String × Members} {v : PyVal},
    M.Provides (CType.cls c.1 c.2).classes →
    (∀ ms ∈ (CType.cls c.1 c.2).instances, ∀ m ∈ ms.list, m.Supported) →
    (CType.cls c.1 c.2).depth ≤ k → (CType.cls c.1 c.2).HasType v → Constructed M v →
    ∀ ms ∈ (CType.cls c.1 c.2).instances, ms.Visible
  | 0, _, _, _, _, hdepth, _, _ => by simp [CType.depth] at hdepth
  | k + 1, (name, ms), v, hprovides, hmembers, hdepth, hv, hconstructed => by
      have hms := hmembers ms (CType.mem_instances name ms)
      obtain ⟨attrs, rfl, hattrs⟩ := CType.eq_obj_of_hasType hv
      cases hconstructed with
      | plain obj list => exact absurd rfl (obj name attrs)
      | obj found names inside =>
          obtain rfl := Option.some.inj (found.symm.trans (hprovides _ (CType.mem_classes name ms)))
          rw [generateClass_fields, Members.names_of_haveTypes hattrs] at names
          have hvisible : ms.Visible := Members.visible_of_names names.symm
          intro ms' hin
          rw [CType.instances] at hin
          rcases List.mem_cons.1 hin with rfl | hin
          · exact hvisible
          · obtain ⟨m, hm, c, hc, hin⟩ :=
              Members.instances_of_coded (fun m hm => (hms m hm).coded) hin
            obtain ⟨hinst, hcls, hlt, -⟩ := CType.object_subset hm (hvisible m hm) hc
            obtain ⟨u, hu, htyped⟩ := Members.value_of_haveTypes hattrs m hm
            obtain ⟨w, hw, hinside⟩ :=
              object_of_declared (hms m hm).kind htyped (inside _ hu) hc
            exact visible_of_constructed k (fun d hd => hprovides d (hcls hd))
              (fun ms hms => hmembers ms (hinst hms)) (Nat.le_of_lt_succ (hlt.trans_le hdepth)) hw
              hinside ms' hin

end

end ReflectPytest
