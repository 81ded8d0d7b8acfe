import ReflectPytest.Wire.Variety

set_option autoImplicit false

/-! # When every value is recovered

If `unpack_wire` of a generated class returns every value of the class from some bytes, from which
its statements without Python's scoping rules get the value, too, then no name in it is shadowed:
neither in the class nor in those of its members. -/

namespace ReflectPytest

open PyStruct PyModule

/-! ## unpack_wire of generated classes -/

section

variable {M : PyModule}

/-- `unpack_wire` returns objects of its class, and nothing for what is no data. -/
theorem sound_unpackWireScoped (hM : ∀ c ∈ M, c.unpackWire ≠ [] ∧ ∀ s ∈ c.unpackWire, s.Proper) :
    ∀ k, Sound (M.unpackWireScoped k)
  | 0 => ⟨nofun, fun _ _ _ => rfl⟩
  | k + 1 => by
      refine ⟨fun name d v h => ?_, fun name d hd => ?_⟩
      · obtain ⟨c, hc, h⟩ := Option.bind_eq_some_iff.1 h
        obtain ⟨f, -, h⟩ := Option.bind_eq_some_iff.1 h
        unfold Frame.construct at h
        split at h
        · obtain ⟨attrs, -, rfl⟩ := Option.map_eq_some_iff.1 h
          exact ⟨attrs, by rw [(find_eq_some hc).2]⟩
        · exact absurd h (by simp)
      · by_contra hne
        obtain ⟨v, h⟩ := Option.ne_none_iff_exists'.1 hne
        obtain ⟨c, hc, h⟩ := Option.bind_eq_some_iff.1 h
        obtain ⟨f, hrun, -⟩ := Option.bind_eq_some_iff.1 h
        obtain ⟨hstmts, hproper⟩ := hM c (find_eq_some hc).1
        obtain ⟨s, rest, heq⟩ := List.exists_cons_of_ne_nil hstmts
        rw [heq] at hrun hproper
        obtain ⟨f₁, hs, -⟩ := Option.bind_eq_some_iff.1 hrun
        have hreads := execStmt_reads (sound_unpackWireScoped hM k).useless
          (hproper s List.mem_cons_self) hs
        obtain ⟨data, hdata, huseless⟩ := hreads.data
        exact huseless (Option.some.inj hdata ▸ hd)

/-- The attributes of an object made from local variables. -/
theorem mapM_attrs {α : Type} {fields : List (String × α)} {value : String → Option PyVal}
    {attrs : List (String × PyVal)}
    (h : (fields.mapM fun x => (value x.1).map fun v => (x.1, v)) = some attrs) :
    ∀ a ∈ attrs, value a.1 = some a.2 := by
  induction fields generalizing attrs with
  | nil =>
      obtain rfl := Option.some.inj h
      simp
  | cons x fields ih =>
      simp only [List.mapM_cons, Option.bind_eq_bind, Option.bind_eq_some_iff,
        Option.map_eq_some_iff, Option.pure_def, Option.some.injEq] at h
      obtain ⟨a, ⟨v, hv, rfl⟩, rest, hrest, rfl⟩ := h
      intro b hb
      rcases List.mem_cons.1 hb with rfl | hb
      · exact hv
      · exact ih hrest b hb

/-- The run behind an object that `unpack_wire` returns. -/
theorem run_of_unpackWireScoped {k : Nat} {name : String} {c : PyClass} {data : PyVal}
    {attrs : List (String × PyVal)} (hc : M.find name = some c)
    (h : M.unpackWireScoped k name data = some (.obj name attrs)) : ∃ k' f, k = k' + 1 ∧
      M.execStmts (localNames c.unpackWire) (M.unpackWireScoped k') c.unpackWire
        (.initial name data) = some f ∧
      (∃ name', f "cls" = some (.cls name')) ∧ ∀ a ∈ attrs, f.val a.1 = some a.2 := by
  cases k with
  | zero => exact absurd h (by simp [unpackWireScoped])
  | succ k =>
      rw [unpackWireScoped, hc, Option.bind_some] at h
      obtain ⟨f, hrun, h⟩ := Option.bind_eq_some_iff.1 h
      unfold Frame.construct at h
      split at h
      · next name' hcls =>
          obtain ⟨attrs', hattrs, heq⟩ := Option.map_eq_some_iff.1 h
          obtain ⟨-, rfl⟩ := PyVal.obj.inj heq
          exact ⟨k, f, rfl, hrun, ⟨name', hcls⟩, mapM_attrs hattrs⟩
      · exact absurd h (by simp)

/-- The same without Python's scoping rules. -/
theorem run_of_unpackWire {k : Nat} {name : String} {c : PyClass} {data : List UInt8}
    {attrs : List (String × PyVal)} (hc : M.find name = some c)
    (h : M.unpackWire k name data = some (.obj name attrs)) : ∃ k' l, k = k' + 1 ∧
      M.runUnpack (M.unpackWire k') data c.unpackWire ⟨[], 0⟩ = some l ∧
      ∀ a ∈ attrs, get l.fields a.1 = some a.2 := by
  cases k with
  | zero => exact absurd h (by simp [unpackWire])
  | succ k =>
      rw [unpackWire, hc, Option.bind_some] at h
      obtain ⟨l, hrun, h⟩ := Option.bind_eq_some_iff.1 h
      obtain ⟨attrs', hattrs, heq⟩ := Option.map_eq_some_iff.1 h
      obtain ⟨-, rfl⟩ := PyVal.obj.inj heq
      exact ⟨k, l, rfl, hrun, mapM_attrs hattrs⟩

end

/-! ## The statements for the members -/

section

variable {ms : Members} {stmts : List UnpackStmt}

theorem Decoder.ne_nil (h : Decoder ms stmts) (hms : ms.Supported) : stmts ≠ [] := by
  rintro rfl
  have hnames := h.targets
  rw [List.flatMap_nil, ← Members.map_name_list] at hnames
  exact hms.nonempty (List.map_eq_nil_iff.1 hnames.symm)

/-- The member a loop decodes. -/
theorem Decoder.forRange (h : Decoder ms stmts) (hkind : ∀ m ∈ ms.list, m.Kind) {field : String}
    {n : Nat} {subType : TypeName} (hs : .forRange field n subType ∈ stmts) :
    n ≠ 0 ∧ ∃ m ∈ ms.list, m.name = field ∧ ∃ c, m.type.object = some c ∧ subType = .cls c.1 ∧
      ∀ v, Declared m.type.isByte (fun x => m.type.HasType x) m.extents v ↔
        HoldsArray false (fun x => (CType.cls c.1 c.2).HasType x) n v := by
  obtain ⟨m, hm, hname, takesBytes, size, hemission⟩ := h.decodes _ hs
  cases hkind m hm with
  | value item size' hemission' => exact absurd (hemission.symm.trans hemission') (by simp)
  | nested c hobject hemission' => exact absurd (hemission.symm.trans hemission') (by simp)
  | items c takesBytes' n' hobject hemission' htyped =>
      obtain ⟨rfl, -, rfl, -⟩ := Emission.items.inj (hemission.symm.trans hemission')
      exact ⟨Nat.succ_ne_zero n', m, hm, hname, c, hobject, rfl, htyped⟩

/-- The member a call decodes. -/
theorem Decoder.nested (h : Decoder ms stmts) (hkind : ∀ m ∈ ms.list, m.Kind) {field : String}
    {subType : TypeName} (hs : .nested field subType ∈ stmts) :
    ∃ m ∈ ms.list, m.name = field ∧ ∃ c, m.type.object = some c ∧ subType = .cls c.1 ∧
      ∀ v, Declared m.type.isByte (fun x => m.type.HasType x) m.extents v ↔
        (CType.cls c.1 c.2).HasType v := by
  obtain ⟨m, hm, hname, size, hemission⟩ := h.decodes _ hs
  cases hkind m hm with
  | value item size' hemission' => exact absurd (hemission.symm.trans hemission') (by simp)
  | items c takesBytes' n' hobject hemission' =>
      exact absurd (hemission.symm.trans hemission') (by simp)
  | nested c hobject hemission' htyped =>
      obtain ⟨rfl, -⟩ := Emission.nested.inj (hemission.symm.trans hemission')
      exact ⟨m, hm, hname, c, hobject, rfl, htyped⟩

theorem Decoder.proper (h : Decoder ms stmts) (hkind : ∀ m ∈ ms.list, m.Kind) :
    ∀ s ∈ stmts, s.Proper := by
  intro s hs
  refine ⟨?_, ?_⟩
  · rintro targets fmt rfl
    have hparses := h.parses _ hs
    exact (h.decodes _ hs).1 fun hnil => by simp [UnpackStmt.parses, hnil] at hparses
  · rintro field n subType rfl
    exact (h.forRange hkind hs).1

/-- The value of a member. -/
theorem Members.value_of_haveTypes : ∀ {ms : Members} {attrs : List (String × PyVal)},
    ms.HaveTypes attrs → ∀ m ∈ ms.list, ∃ v, (m.name, v) ∈ attrs ∧
      Declared m.type.isByte (fun x => m.type.HasType x) m.extents v
  | .nil, _, _, m, hm => by simp [Members.list] at hm
  | .cons _ _ _ _ _, [], h, _, _ => h.elim
  | .cons name access t extents rest, (name', v) :: attrs, h, m, hm => by
      obtain ⟨rfl, hv, hrest⟩ := h
      rcases List.mem_cons.1 hm with rfl | hm
      · exact ⟨v, List.mem_cons_self, hv⟩
      · obtain ⟨w, hw, htyped⟩ := rest.value_of_haveTypes hrest m hm
        exact ⟨w, List.mem_cons_of_mem _ hw, htyped⟩

end

/-! ## The names of classes -/

section

variable {M : PyModule} {call : String → PyVal → Option PyVal} {locals : List String}
  {name : String} {ms : Members} {stmts : List UnpackStmt} {bs : List UInt8}
  {attrs : List (String × PyVal)} {g : Frame}

theorem initial_classes {P : String → Prop} (hP : P name) :
    (Frame.initial name (.bytes bs)).Classes P := by
  refine ⟨fun x name' h => ?_, fun x v h => ?_⟩
  · unfold Frame.initial at h
    split_ifs at h
    · exact Binding.cls.inj (Option.some.inj h) ▸ hP
    all_goals exact absurd h (by simp)
  · rw [Frame.val_eq_some] at h
    unfold Frame.initial at h
    split_ifs at h
    · exact absurd h (by simp)
    · obtain rfl := Binding.val.inj (Option.some.inj h)
      trivial
    · obtain rfl := Binding.val.inj (Option.some.inj h)
      trivial

/-- **A class whose objects are members is not local**: what is decoded with a local variable in its
    place is an object of another class. -/
theorem globals_of_run (hcall : Sound call) (hdecoder : Decoder ms stmts)
    (hkind : ∀ m ∈ ms.list, m.Kind) (hvisible : ms.Visible) (hfresh : ∀ d ∈ ms.classes, d.1 ≠ name)
    (hattrs : ms.HaveTypes attrs)
    (h : M.execStmts locals call stmts (.initial name (.bytes bs)) = some g)
    (hg : ∀ a ∈ attrs, g.val a.1 = some a.2) : ∀ s ∈ stmts, ∀ x ∈ s.globals, x ∉ locals := by
  have hpython := isPython_of_run h
  have hclasses : g.Classes fun c => c ∉ locals ∨ c = name :=
    execStmts_classes hcall.obj (fun _ => Or.inl) (initial_classes (Or.inr rfl)) h
  have hclass : ∀ m ∈ ms.list, ∀ c, m.type.object = some c →
      (∀ v, g.val m.name = some v →
        Declared m.type.isByte (fun x => m.type.HasType x) m.extents v →
        c.1 ∉ locals ∨ c.1 = name) → c.1 ∉ locals := by
    intro m hm c hc hP
    obtain ⟨v, hv, htyped⟩ := Members.value_of_haveTypes hattrs m hm
    refine (hP v (hg _ hv) htyped).resolve_right (hfresh c ?_)
    exact (Members.object_subset hm (hvisible m hm) hc).2.1 (CType.mem_classes c.1 c.2)
  intro s hs x hx
  cases s with
  | unpackFrom targets fmt =>
      rw [List.mem_singleton.1 hx]
      exact (hpython _ hs).1 targets fmt rfl
  | forRange field n subType =>
      obtain ⟨hn, m, hm, rfl, c, hc, rfl, htyped⟩ := hdecoder.forRange hkind hs
      simp only [UnpackStmt.globals, List.mem_cons, List.not_mem_nil, or_false] at hx
      rcases hx with rfl | rfl
      · exact (hpython _ hs).2 m.name n _ rfl
      · refine hclass m hm c hc fun v hv hdeclared => ?_
        obtain ⟨xs, rfl, rfl, hxs⟩ := ((htyped v).1 hdeclared).eq_list
        obtain ⟨y, ys, rfl⟩ := List.exists_cons_of_ne_nil (List.ne_nil_of_length_pos
          (Nat.pos_of_ne_zero hn))
        obtain ⟨attrs', rfl, -⟩ := CType.eq_obj_of_hasType (hxs y List.mem_cons_self)
        exact hclasses.val _ _ hv c.1 attrs' List.mem_cons_self
  | nested field subType =>
      obtain ⟨m, hm, rfl, c, hc, rfl, htyped⟩ := hdecoder.nested hkind hs
      rw [List.mem_singleton.1 hx]
      refine hclass m hm c hc fun v hv hdeclared => ?_
      obtain ⟨attrs', rfl, -⟩ := CType.eq_obj_of_hasType ((htyped v).1 hdeclared)
      exact hclasses.val _ _ hv

end

/-! ## One class -/

/-- `unpack_wire` returns the value from some bytes, and so do its statements without Python's
    scoping rules. -/
def Recovers (M : PyModule) (c : String × Members) (v : PyVal) : Prop :=
  ∃ k k' bs, M.unpackWireScoped k c.1 (.bytes bs) = some v ∧ M.unpackWire k' c.1 bs = some v

/-- A list of statements that assign different names, stopped at one of them. -/
theorem nodup_of_split {stmts pre post : List UnpackStmt} {s : UnpackStmt}
    (hnodup : (stmts.flatMap UnpackStmt.targets).Nodup) (hsplit : stmts = pre ++ s :: post) :
    (post.flatMap UnpackStmt.targets).Nodup ∧
      ∀ x ∈ s.targets, x ∉ post.flatMap UnpackStmt.targets := by
  rw [hsplit, List.flatMap_append, List.flatMap_cons] at hnodup
  obtain ⟨-, hpost, hdisjoint⟩ := List.nodup_append'.1 (List.nodup_append'.1 hnodup).2.1
  exact ⟨hpost, fun x hx hmem => hdisjoint hx hmem⟩

theorem pairwise_of_splits {α : Type} {R : α → α → Prop} {xs : List α}
    (h : ∀ pre x post, xs = pre ++ x :: post → ∀ y ∈ post, R x y) : xs.Pairwise R := by
  induction xs with
  | nil => exact .nil
  | cons x xs ih =>
      refine List.pairwise_cons.2 ⟨h [] x xs rfl, ih fun pre y post heq => h (x :: pre) y post ?_⟩
      rw [heq, List.cons_append]

section

variable {M : PyModule} {name : String} {ms : Members}

/-- What is known of a generated class and its place in the module. -/
structure Placed (M : PyModule) (name : String) (ms : Members) : Prop where
  sound : ∀ k, Sound (M.unpackWireScoped k)
  found : M.find name = some (generateClass name ms)
  supported : ms.Supported
  wellFormed : (CType.cls name ms).WellFormed
  decoder : Decoder ms (generateClass name ms).unpackWire
  fresh : ∀ d ∈ ms.classes, d.1 ≠ name

theorem Placed.kind (h : Placed M name ms) : ∀ m ∈ ms.list, m.Kind :=
  fun _ hm => (h.supported.member h.wellFormed.1 hm).kind

theorem Placed.mem_names (h : Placed M name ms) {s : UnpackStmt}
    (hs : s ∈ (generateClass name ms).unpackWire) {x : String} (hx : x ∈ s.targets) :
    ∃ m ∈ ms.list, m.name = x := by
  have hmem : x ∈ ms.list.map Member.name := by
    rw [Members.map_name_list, ← h.decoder.targets]
    exact List.mem_flatMap.2 ⟨s, hs, hx⟩
  exact List.mem_map.1 hmem

theorem Placed.nodup (h : Placed M name ms) :
    ((generateClass name ms).unpackWire.flatMap UnpackStmt.targets).Nodup := by
  rw [h.decoder.targets]
  exact h.wellFormed.2

/-- What comes after a statement runs too, and the members end up with the values of the object. -/
theorem Placed.run_after (h : Placed M name ms) {attrs : List (String × PyVal)}
    {pre : List UnpackStmt} {s : UnpackStmt} {post : List UnpackStmt}
    (hsplit : (generateClass name ms).unpackWire = pre ++ s :: post)
    (hrecovers : Recovers M (name, ms) (.obj name attrs)) :
    ∃ k f g, M.execStmts (localNames (generateClass name ms).unpackWire)
        (M.unpackWireScoped k) post f = some g ∧ ∀ a ∈ attrs, g.val a.1 = some a.2 := by
  obtain ⟨k, -, bs, hunpack, -⟩ := hrecovers
  obtain ⟨k', g, -, hrun, -, hg⟩ := run_of_unpackWireScoped h.found hunpack
  rw [hsplit] at hrun
  obtain ⟨-, f, -, -, hrun⟩ := execStmts_split hrun
  rw [← hsplit] at hrun
  exact ⟨k', f, g, hrun, hg⟩

/-- A member that a later statement overwrites cannot have all of its values. -/
theorem Placed.later (h : Placed M name ms)
    (hglobals : ∀ s ∈ (generateClass name ms).unpackWire, ∀ x ∈ s.globals,
      x ∉ localNames (generateClass name ms).unpackWire)
    (hvaried : ∀ m ∈ ms.list, Varied (Declared m.type.isByte (fun x => m.type.HasType x) m.extents))
    (hrecovers : ∀ v, (CType.cls name ms).HasType v → Recovers M (name, ms) v) :
    (generateClass name ms).unpackWire.Pairwise fun s s' =>
      ∀ x ∈ s.targets, x ≠ "data" → x ≠ "offset" → x ∉ s'.uses := by
  refine pairwise_of_splits fun pre s post hsplit s' hs' x hx hdata hoffset huses => ?_
  have hmem : ∀ t ∈ s :: post, t ∈ (generateClass name ms).unpackWire := by
    intro t ht
    rw [hsplit]
    exact List.mem_append_right _ ht
  obtain ⟨hpost, hdisjoint⟩ := nodup_of_split h.nodup hsplit
  obtain ⟨m, hm, rfl⟩ := h.mem_names (hmem s List.mem_cons_self) hx
  obtain ⟨v, w, hv, hw, hne⟩ := hvaried m hm
  -- a run for each of two values, which differ in nothing else
  have hrun : ∀ u, Declared m.type.isByte (fun x => m.type.HasType x) m.extents u →
      ∃ k f g, M.execStmts (localNames (generateClass name ms).unpackWire)
          (M.unpackWireScoped k) post f = some g ∧
        ∀ a ∈ setAttr ms.defaults m.name u, g.val a.1 = some a.2 :=
    fun u hu => h.run_after hsplit
      (hrecovers _ ⟨rfl, (Members.haveTypes_defaults_setAttr h.wellFormed.2 hm hu).1⟩)
  have hself : m.name ∈ ms.defaults.map Prod.fst := by
    rw [Members.names_of_haveTypes ms.defaults_haveTypes, ← Members.map_name_list]
    exact List.mem_map_of_mem hm
  obtain ⟨k₁, f₁, g₁, hrun₁, hg₁⟩ := hrun v hv
  obtain ⟨k₂, f₂, g₂, hrun₂, hg₂⟩ := hrun w hw
  have hagree : ∀ y ∈ post.flatMap UnpackStmt.targets, g₁.val y = g₂.val y := by
    intro y hy
    have hy' : y ≠ m.name := fun heq => hdisjoint _ hx (heq ▸ hy)
    obtain ⟨t, ht, hyt⟩ := List.mem_flatMap.1 hy
    obtain ⟨m', hm', rfl⟩ := h.mem_names (hmem t (List.mem_cons_of_mem _ ht)) hyt
    obtain ⟨u, hu, -⟩ := Members.value_of_haveTypes ms.defaults_haveTypes m' hm'
    rw [hg₁ _ (mem_setAttr_of_ne v hu hy'), hg₂ _ (mem_setAttr_of_ne w hu hy')]
  have hproper := h.decoder.proper h.kind
  have hsame := execStmts_determines (h.sound k₁) (h.sound k₂)
    (fun t ht => ⟨hproper t (hmem t (List.mem_cons_of_mem _ ht)),
      hglobals t (hmem t (List.mem_cons_of_mem _ ht))⟩) hpost ⟨s', hs', huses⟩ hdata hoffset
    (hdisjoint m.name hx) hrun₁ hrun₂ hagree
  rw [hg₁ _ (mem_setAttr_self hself), hg₂ _ (mem_setAttr_self hself)] at hsame
  exact hne (Option.some.inj hsame)

/-- **No name of the class is shadowed in `unpack_wire`.** -/
theorem Placed.unclobbered (h : Placed M name ms) (hstruct : M.find "struct" = none)
    (hrange : M.find "range" = none)
    (hvaried : ∀ m ∈ ms.list, Varied (Declared m.type.isByte (fun x => m.type.HasType x) m.extents))
    (hrecovers : ∀ v, (CType.cls name ms).HasType v → Recovers M (name, ms) v) :
    (∀ s ∈ (generateClass name ms).unpackWire, ∀ x ∈ s.globals,
      x ∉ localNames (generateClass name ms).unpackWire) ∧
      Unclobbered (generateClass name ms).unpackWire := by
  -- if there is a member called `offset`, it has a value that drifts
  obtain ⟨attrs, hattrs, hdrifts⟩ := Members.exists_drifting h.wellFormed.2 "offset"
  obtain ⟨k, k', bs, hunpack, hplain⟩ := hrecovers (.obj name attrs) ⟨rfl, hattrs⟩
  obtain ⟨k, g, rfl, hrun, ⟨name', hcls⟩, hg⟩ := run_of_unpackWireScoped h.found hunpack
  obtain ⟨k', l, rfl, hrun', hl⟩ := run_of_unpackWire h.found hplain
  have hproper := h.decoder.proper h.kind
  have hglobals := globals_of_run (h.sound k) h.decoder h.kind h.supported.visible h.fresh hattrs
    hrun hg
  refine ⟨hglobals, unclobbered_of_run (h.sound k) hstruct hrange ⟨hproper, hglobals,
    cls_notMem_targets hrun hcls, h.nodup, h.later hglobals hvaried hrecovers⟩ (by simp)
    (agrees_initial name bs _) rfl hrun hrun' fun w hw => ?_⟩
  have hnames : "offset" ∈ attrs.map Prod.fst := by
    by_contra hnot
    rw [Members.names_of_haveTypes hattrs, ← h.decoder.targets] at hnot
    rw [get_of_runUnpack hrun' hnot] at hw
    exact absurd hw (by simp [PyModule.get])
  obtain ⟨a, ha, hname⟩ := List.mem_map.1 hnames
  have hget := hl a ha
  rw [hname, hw, Option.some_inj] at hget
  subst hget
  rw [← hname]
  exact ⟨hg a ha, hdrifts _ (hname ▸ ha)⟩

end

/-! ## The classes of its members -/

section

variable {M : PyModule} {callU callV : String → List UInt8 → Option PyVal} {data : List UInt8}
  {stmts : List UnpackStmt} {l l' : Locals}

theorem offset_of_runUnpack (h : M.runUnpack callU data stmts l = some l') :
    l'.offset = l.offset + (stmts.map (UnpackStmt.width M)).sum := by
  induction stmts generalizing l with
  | nil =>
      obtain rfl := Option.some.inj h
      rfl
  | cons s rest ih =>
      obtain ⟨l₁, hs, hrest⟩ := Option.bind_eq_some_iff.1 h
      rw [ih hrest, offset_of_runUnpackStmt hs, List.map_cons, List.sum_cons, Nat.add_assoc]

/-- A run stops before a statement and after it, where its members have their values. -/
theorem runUnpack_split (hnodup : (stmts.flatMap UnpackStmt.targets).Nodup) {pre : List UnpackStmt}
    {s : UnpackStmt} {post : List UnpackStmt} (hsplit : stmts = pre ++ s :: post)
    (h : M.runUnpack callU data stmts ⟨[], 0⟩ = some l) : ∃ l₁ l₂,
      l₁.offset = (pre.map (UnpackStmt.width M)).sum ∧
      M.runUnpackStmt callU data l₁ s = some l₂ ∧
      ∀ x ∈ s.targets, get l.fields x = get l₂.fields x := by
  have hdisjoint := (nodup_of_split hnodup hsplit).2
  rw [hsplit, runUnpack_append] at h
  obtain ⟨l₁, hpre, h⟩ := Option.bind_eq_some_iff.1 h
  obtain ⟨l₂, hs, hpost⟩ := Option.bind_eq_some_iff.1 h
  refine ⟨l₁, l₂, ?_, hs, fun x hx => get_of_runUnpack hpost (hdisjoint x hx)⟩
  rw [offset_of_runUnpack hpre, Nat.zero_add]

/-- The statement decodes the field to an object `w`, or to a list of items that starts with it. -/
inductive DecodesObject (field sub : String) (w : PyVal) : UnpackStmt → PyVal → Prop where
  | nested : DecodesObject field sub w (.nested field (.cls sub)) w
  | items (n : Nat) (ws : List PyVal) :
      DecodesObject field sub w (.forRange field (n + 1) (.cls sub)) (.list (w :: ws))

/-- The object is what the class returns for the bytes at the offset. -/
theorem DecodesObject.call {s : UnpackStmt} {sub field : String} {v w : PyVal}
    (hs : DecodesObject field sub w s v) (h : M.runUnpackStmt callU data l s = some l')
    (hget : get l'.fields field = some v) :
    callU sub (slice data l.offset ((M.wireSize (.cls sub)).getD 0)) = some w := by
  have hnested : ∀ {item next}, M.unpackNested callU data (.cls sub) l.offset = some (item, next) →
      callU sub (slice data l.offset ((M.wireSize (.cls sub)).getD 0)) = some item := by
    intro item next hitem
    obtain ⟨size, hsize, hcall⟩ := Option.bind_eq_some_iff.1 hitem
    obtain ⟨item', hcall, heq⟩ := Option.map_eq_some_iff.1 hcall
    rw [hsize, Option.getD_some, hcall, (Prod.mk.inj heq).1]
  cases hs with
  | nested =>
      obtain ⟨⟨item, next⟩, hitem, rfl⟩ := Option.map_eq_some_iff.1 h
      rw [get_cons, if_pos rfl, Option.some_inj] at hget
      exact hget ▸ hnested hitem
  | items n ws =>
      obtain ⟨⟨items, next⟩, hitems, rfl⟩ := Option.map_eq_some_iff.1 h
      obtain ⟨⟨item, next'⟩, hitem, hrest⟩ := Option.bind_eq_some_iff.1 hitems
      obtain ⟨⟨items', next''⟩, -, heq⟩ := Option.map_eq_some_iff.1 hrest
      rw [get_cons, if_pos rfl, Option.some_inj, ← (Prod.mk.inj heq).1, PyVal.list.injEq,
        List.cons.injEq] at hget
      exact hget.1 ▸ hnested hitem

/-- A member that is a single value holds no objects. -/
theorem object_of_value {t : CType} {extents : List Nat} {item : Item} {size : Nat}
    (h : emission t extents = .value item size) : t.object = none := by
  rcases extents with - | ⟨n, inner⟩
  · cases t with
    | scalar s => rfl
    | cls sub ms => exact absurd h (by simp [emission])
    | stdArray elem inner n =>
        rw [emission_stdArray] at h
        split at h
        · next hbyte =>
            cases elem with
            | scalar s => rfl
            | _ => exact absurd (Bool.and_eq_true_iff.1 hbyte).1 Bool.false_ne_true
        · exact absurd h (by simp)
  · rw [emission_array] at h
    split at h
    · next hbyte => exact CType.object_of_isByte hbyte
    · exact absurd h (by simp)

end

section

variable {M : PyModule} {name : String} {ms : Members}

/-- The statement for a member that holds objects of a class, and a value with a given object. -/
theorem Placed.statement (h : Placed M name ms) {m : Member} (hm : m ∈ ms.list)
    {c : String × Members} (hc : m.type.object = some c) {w : PyVal}
    (hw : (CType.cls c.1 c.2).HasType w) : ∃ s ∈ (generateClass name ms).unpackWire,
      m.name ∈ s.targets ∧ ∃ v, Declared m.type.isByte (fun x => m.type.HasType x) m.extents v ∧
        DecodesObject m.name c.1 w s v := by
  have hname : m.name ∈ (generateClass name ms).unpackWire.flatMap UnpackStmt.targets := by
    rw [h.decoder.targets, ← Members.map_name_list]
    exact List.mem_map_of_mem hm
  have heq : ∀ {m'}, m' ∈ ms.list → m'.name = m.name → m' = m := fun hm' hname =>
    Members.eq_of_name h.wellFormed.2 hm' hm hname
  obtain ⟨s, hs, hx⟩ := List.mem_flatMap.1 hname
  refine ⟨s, hs, hx, ?_⟩
  cases s with
  | unpackFrom targets fmt =>
      obtain ⟨m', hm', hname', hvalue⟩ := (h.decoder.decodes _ hs).2 _ hx
      obtain rfl := heq hm' hname'
      cases hemission : emission m'.type m'.extents with
      | value item size => exact absurd ((object_of_value hemission).symm.trans hc) (by simp)
      | _ =>
          rw [hemission] at hvalue
          exact absurd hvalue Bool.false_ne_true
  | forRange field n subType =>
      obtain rfl := List.mem_singleton.1 hx
      obtain ⟨hn, m', hm', hname', c', hc', rfl, htyped⟩ := h.decoder.forRange h.kind hs
      obtain rfl := heq hm' hname'
      obtain rfl := Option.some.inj (hc.symm.trans hc')
      obtain ⟨n, rfl⟩ := Nat.exists_eq_succ_of_ne_zero hn
      exact ⟨_, (htyped _).2 (holdsArray_replicate (n + 1) hw), .items n (List.replicate n w)⟩
  | nested field subType =>
      obtain rfl := List.mem_singleton.1 hx
      obtain ⟨m', hm', hname', c', hc', rfl, htyped⟩ := h.decoder.nested h.kind hs
      obtain rfl := heq hm' hname'
      obtain rfl := Option.some.inj (hc.symm.trans hc')
      exact ⟨w, (htyped w).2 hw, .nested⟩

/-- **The objects in a class are recovered with it.** -/
theorem Placed.recovers_object (h : Placed M name ms) (hstruct : M.find "struct" = none)
    (hrange : M.find "range" = none) (hun : (generateClass name ms).Unshadowed)
    (hrecovers : ∀ v, (CType.cls name ms).HasType v → Recovers M (name, ms) v) {m : Member}
    (hm : m ∈ ms.list) {c : String × Members} (hc : m.type.object = some c) :
    ∀ w, (CType.cls c.1 c.2).HasType w → Recovers M c w := by
  intro w hw
  obtain ⟨s, hs, hx, v, hv, hobject⟩ := h.statement hm hc hw
  obtain ⟨hattrs, hmem⟩ := Members.haveTypes_defaults_setAttr h.wellFormed.2 hm hv
  obtain ⟨k, k', bs, hunpack, hplain⟩ := hrecovers (.obj name _) ⟨rfl, hattrs⟩
  obtain ⟨k', l', rfl, hrun', hl'⟩ := run_of_unpackWire h.found hplain
  obtain ⟨k, -, rfl, -⟩ := run_of_unpackWireScoped h.found hunpack
  rw [unpackWireScoped_succ hstruct hrange h.found h.supported.visible h.decoder hun] at hunpack
  obtain ⟨l, hrun, hconstruct⟩ := Option.bind_eq_some_iff.1 hunpack
  obtain ⟨attrs, hattrs', heq⟩ := Option.map_eq_some_iff.1 hconstruct
  obtain ⟨-, rfl⟩ := PyVal.obj.inj heq
  -- both runs decode the member at the same offset
  obtain ⟨pre, post, hsplit⟩ := List.append_of_mem hs
  obtain ⟨l₁, l₂, hoffset, hstmt, htargets⟩ := runUnpack_split h.nodup hsplit hrun
  obtain ⟨l₁', l₂', hoffset', hstmt', htargets'⟩ := runUnpack_split h.nodup hsplit hrun'
  have hcall := hobject.call hstmt ((htargets _ hx).symm.trans (mapM_attrs hattrs' _ hmem))
  have hcall' := hobject.call hstmt' ((htargets' _ hx).symm.trans (hl' _ hmem))
  rw [hoffset] at hcall
  rw [hoffset'] at hcall'
  exact ⟨k, k', _, hcall, hcall'⟩

end

/-! ## All classes -/

theorem Members.classes_of_object : ∀ {ms : Members} {d : String × Members},
    (∀ m ∈ ms.list, m.Supported) → d ∈ ms.classes → ∃ m ∈ ms.list, m.access = .accessible ∧
      ∃ c, m.type.object = some c ∧ d ∈ (CType.cls c.1 c.2).classes
  | .nil, _, _, h => by simp [Members.classes] at h
  | .cons _ .hidden _ _ rest, d, hms, h => by
      obtain ⟨m, hm, hobject⟩ :=
        rest.classes_of_object (fun m hm => hms m (List.mem_cons_of_mem _ hm)) h
      exact ⟨m, List.mem_cons_of_mem _ hm, hobject⟩
  | .cons name .accessible t extents rest, d, hms, h => by
      rw [Members.classes_cons, List.mem_append] at h
      rcases h with h | h
      · obtain ⟨hcoded, hfilled, -⟩ := hms _ List.mem_cons_self
        refine ⟨_, List.mem_cons_self, rfl, ?_⟩
        cases t with
        | scalar s => exact absurd h (by simp [CType.base, CType.classes])
        | cls sub ms => exact ⟨(sub, ms), rfl, h⟩
        | stdArray elem inner n =>
            have hn : n ≠ 0 := by simpa [CType.isEmptyArray] using hfilled
            cases inner with
            | cons k inner => exact absurd h (by simp [CType.base, CType.classes])
            | nil =>
                cases elem with
                | scalar s => exact absurd h (by simp [CType.base, CType.classes])
                | stdArray elem' inner' n' => exact absurd h (by simp [CType.base, CType.classes])
                | cls sub ms => exact ⟨(sub, ms), if_neg hn, h⟩
      · obtain ⟨m, hm, hobject⟩ :=
          rest.classes_of_object (fun m hm => hms m (List.mem_cons_of_mem _ hm)) h
        exact ⟨m, List.mem_cons_of_mem _ hm, hobject⟩

/-- **A class that is recovered as a whole shadows no name**, and neither does any class in it. -/
theorem unshadowed_of_recovers {M : PyModule} (hstruct : M.find "struct" = none)
    (hrange : M.find "range" = none) (hsound : ∀ k, Sound (M.unpackWireScoped k)) :
    ∀ (k : Nat) {c : String × Members}, M.Provides (CType.cls c.1 c.2).classes →
    Unambiguous (CType.cls c.1 c.2).classes →
    (∀ d ∈ (CType.cls c.1 c.2).classes, d.2.Supported ∧ d.2.FlushesValues d.1 ∧
      (generateClass d.1 d.2).defaultsLast = true ∧
      "pack_wire" ∉ (generateClass d.1 d.2).fields.map Prod.fst) →
    (CType.cls c.1 c.2).WellFormed → (CType.cls c.1 c.2).depth ≤ k →
    (∀ v, (CType.cls c.1 c.2).HasType v → Recovers M c v) →
    ∀ d ∈ (CType.cls c.1 c.2).classes, (generateClass d.1 d.2).Unshadowed
  | 0, _, _, _, _, _, hdepth, _ => by simp [CType.depth] at hdepth
  | k + 1, (name, ms), hprovides, hnames, hclasses, hw, hdepth, hrecovers => by
      have hhere := CType.mem_classes name ms
      obtain ⟨hms, hflush, hdefaults, hmethod⟩ := hclasses _ hhere
      have hfresh : ∀ d ∈ ms.classes, d.1 ≠ name := by
        intro d hd heq
        have hbelow : d.1 ∉ [name] := fresh_below hnames (fun d hd => hd) (by simp) d hd
        exact hbelow (heq ▸ List.mem_cons_self)
      have hplaced : Placed M name ms := ⟨hsound, hprovides _ hhere, hms, hw,
        decoder_generateClass hms hw.1 hflush, hfresh⟩
      have hvaried : ∀ m ∈ ms.list,
          Varied (Declared m.type.isByte (fun x => m.type.HasType x) m.extents) := by
        intro m hm
        refine (hms.member hw.1 hm).varied fun c hc => ?_
        obtain ⟨-, hcls, -, hwf⟩ := CType.object_subset hm (hms.visible m hm) hc
        exact CType.varied _ (fun d hd => (hclasses d (hcls hd)).1) (hwf hw) le_rfl
      obtain ⟨hglobals, hlocals⟩ := hplaced.unclobbered hstruct hrange hvaried hrecovers
      have hun : (generateClass name ms).Unshadowed := ⟨hdefaults, hmethod, hglobals, hlocals⟩
      intro d hd
      rw [CType.classes, List.mem_append, List.mem_singleton] at hd
      rcases hd with hd | rfl
      · obtain ⟨m, hm, hacc, c, hc, hin⟩ :=
          Members.classes_of_object (fun m hm => hms.member hw.1 hm) hd
        obtain ⟨-, hcls, hlt, hwf⟩ := CType.object_subset hm hacc hc
        exact unshadowed_of_recovers hstruct hrange hsound k (fun d hd => hprovides d (hcls hd))
          (fun d hd d' hd' => hnames d (hcls hd) d' (hcls hd')) (fun d hd => hclasses d (hcls hd))
          (hwf hw) (Nat.le_of_lt_succ (hlt.trans_le hdepth))
          (hplaced.recovers_object hstruct hrange hun hrecovers hm hc) d hin
      · exact hun

end ReflectPytest
