import ReflectPytest.Wire.Necessity
import ReflectPytest.Wire.Scopes

set_option autoImplicit false

/-! # The statements of unpack_wire

Every member is decoded by one statement of `unpack_wire`, of the kind the generator chose for it,
and every format has bytes to read. -/

namespace ReflectPytest

open PyStruct

/-! ## Supported members -/

/-- `std::array<T, 0>`. -/
def CType.isEmptyArray : CType → Bool
  | .stdArray _ _ n => decide (n = 0)
  | _ => false

/-- The members of the class are of the kinds the generator is for. -/
structure Members.Supported (ms : Members) : Prop extends Members.Encodable ms where
  filled : ∀ m ∈ ms.list, m.type.isEmptyArray = false

instance (ms : Members) : Decidable ms.Supported :=
  decidable_of_iff (ms.Encodable ∧ ∀ m ∈ ms.list, m.type.isEmptyArray = false)
    ⟨fun ⟨h₁, h₂⟩ => ⟨h₁, h₂⟩, fun h => ⟨h.toEncodable, h.filled⟩⟩

/-- What is known of a member on its own. -/
structure Member.Supported (m : Member) : Prop where
  coded : m.type.Coded m.extents
  filled : m.type.isEmptyArray = false
  extents : ∀ k ∈ m.extents, 0 < k

theorem Members.Supported.member {ms : Members} (h : ms.Supported) (hw : ms.WellFormed) {m : Member}
    (hm : m ∈ ms.list) : m.Supported :=
  ⟨h.coded m hm, h.filled m hm, (Members.wellFormed_of_mem hw hm).1⟩

/-- What the generator emits for a supported member: a value that takes some bytes, a loop over at
    least one object of a class, or a call for one. -/
inductive Member.Kind (m : Member) : Prop where
  | value (item : Item) (size : Nat) (emission : emission m.type m.extents = .value item size)
      (pos : 0 < item.size)
  | items (c : String × Members) (takesBytes : Bool) (n : Nat) (object : m.type.object = some c)
      (emission : emission m.type m.extents = .items (.cls c.1) takesBytes (n + 1)
        (CType.cls c.1 c.2).size)
      (typed : ∀ v, Declared m.type.isByte (fun x => m.type.HasType x) m.extents v ↔
        HoldsArray false (fun x => (CType.cls c.1 c.2).HasType x) (n + 1) v)
  | nested (c : String × Members) (object : m.type.object = some c)
      (emission : emission m.type m.extents = .nested (.cls c.1) (CType.cls c.1 c.2).size)
      (typed : ∀ v, Declared m.type.isByte (fun x => m.type.HasType x) m.extents v ↔
        (CType.cls c.1 c.2).HasType v)

theorem Member.Supported.kind {m : Member} (h : m.Supported) : m.Kind := by
  obtain ⟨name, access, t, extents⟩ := m
  obtain ⟨hcoded, hfilled, hext⟩ := h
  rcases extents with - | ⟨n, inner⟩
  · cases t with
    | scalar s => exact .value _ _ rfl (Code.size_pos _)
    | cls sub ms => exact .nested (sub, ms) rfl rfl fun _ => Iff.rfl
    | stdArray elem inner n =>
        have hn : n ≠ 0 := by simpa [CType.isEmptyArray] using hfilled
        obtain ⟨rfl, hkind⟩ := hcoded.resolve_left hn
        have hemission := emission_stdArray elem [] n
        have htyped : ∀ v, Declared (CType.stdArray elem [] n).isByte
            (fun x => (CType.stdArray elem [] n).HasType x) [] v ↔
            HoldsArray (elem.isByte && true) (fun x => elem.HasType x) n v := fun _ => Iff.rfl
        cases hbyte : elem.isByte with
        | true =>
            rw [hbyte] at hemission
            exact .value _ _ hemission (Nat.pos_of_ne_zero hn)
        | false =>
            rw [hbyte] at hkind hemission htyped
            obtain ⟨sub, ms, rfl⟩ := CType.eq_cls_of_isClass hkind
            obtain ⟨n, rfl⟩ := Nat.exists_eq_succ_of_ne_zero hn
            rw [List.prod_nil, Nat.one_mul] at hemission
            exact .items (sub, ms) false n rfl hemission htyped
  · obtain ⟨hinner, hkind⟩ := CType.coded_array.1 hcoded
    have hprod : (n :: inner).prod = n := by rw [List.prod_cons, hinner, Nat.mul_one]
    have hn : n ≠ 0 := (hext n List.mem_cons_self).ne'
    have hemission := emission_array t n inner
    have htyped : ∀ v, Declared t.isByte (fun x => t.HasType x) (n :: inner) v ↔
        HoldsArray t.isByte (fun x => t.HasType x) n v := by
      intro v
      rw [Declared, if_neg (List.cons_ne_nil n inner), hprod]
    cases hbyte : t.isByte with
    | true =>
        rw [hbyte] at hemission
        exact .value _ _ hemission (Nat.pos_of_ne_zero hn)
    | false =>
        rw [hbyte] at hkind hemission htyped
        obtain ⟨sub, ms, rfl⟩ := CType.eq_cls_of_isClass hkind
        obtain ⟨n, rfl⟩ := Nat.exists_eq_succ_of_ne_zero hn
        exact .items (sub, ms) true n rfl hemission htyped

/-! ## Members and statements -/

/-- The statement decodes members of the list, each in its own way. -/
def UnpackStmt.Decodes (members : List Member) : UnpackStmt → Prop
  | .unpackFrom targets fmt => (targets ≠ [] → 0 < calcsize fmt) ∧
      ∀ x ∈ targets, ∃ m ∈ members, m.name = x ∧ (emission m.type m.extents).isValue = true
  | .forRange field n subType => ∃ m ∈ members, m.name = field ∧
      ∃ takesBytes size, emission m.type m.extents = .items subType takesBytes n size
  | .nested field subType => ∃ m ∈ members, m.name = field ∧
      ∃ size, emission m.type m.extents = .nested subType size

theorem UnpackStmt.Decodes.mono {members members' : List Member} (h : members ⊆ members') :
    ∀ {s : UnpackStmt}, s.Decodes members → s.Decodes members'
  | .unpackFrom _ _, ⟨hpos, htargets⟩ => ⟨hpos, fun x hx => by
      obtain ⟨m, hm, hmx⟩ := htargets x hx
      exact ⟨m, h hm, hmx⟩⟩
  | .forRange _ _ _, ⟨m, hm, hmx⟩ => ⟨m, h hm, hmx⟩
  | .nested _ _, ⟨m, hm, hmx⟩ => ⟨m, h hm, hmx⟩

namespace Gen

/-- What has been emitted once the members of the list have been visited. -/
structure Decodes (g : Gen) (members : List Member) : Prop where
  targets : g.unpackInstructions.flatMap UnpackStmt.targets ++ g.unpackArgs =
    members.map Member.name
  stmts : ∀ s ∈ g.unpackInstructions, s.Decodes members
  args : ∀ x ∈ g.unpackArgs, ∃ m ∈ members, m.name = x ∧
    (emission m.type m.extents).isValue = true
  pos : g.unpackArgs ≠ [] → 0 < calcsize g.packFmt
  none : g.packFmt = [] → g.unpackArgs = []

theorem decodes_init : Decodes {} [] := ⟨rfl, by simp, by simp, by simp, fun _ => rfl⟩

theorem Decodes.flushFormat {g : Gen} {members : List Member} (h : g.Decodes members) :
    g.flushFormat.Decodes members ∧ g.flushFormat.unpackArgs = [] := by
  unfold Gen.flushFormat
  split
  · next hfmt => exact ⟨h, h.none hfmt⟩
  · refine ⟨⟨?_, ?_, by simp, by simp, fun _ => rfl⟩, rfl⟩
    · rw [← h.targets]
      simp [UnpackStmt.targets]
    · intro s hs
      rcases List.mem_append.1 hs with hs | hs
      · exact h.stmts s hs
      · obtain rfl := List.mem_singleton.1 hs
        exact ⟨h.pos, h.args⟩

theorem Decodes.padUpTo {g : Gen} {members : List Member} (h : g.Decodes members) (offset : Nat) :
    (g.padUpTo offset).Decodes members := by
  unfold Gen.padUpTo
  split
  · refine ⟨h.targets, h.stmts, h.args, fun hne => ?_, by simp⟩
    rw [calcsize_append]
    exact Nat.add_pos_left (h.pos hne) _
  · exact h

/-- A statement after a flush decodes one more member. -/
theorem Decodes.append {g g' : Gen} {members : List Member} (h : g.Decodes members) {m : Member}
    {s : UnpackStmt}
    (hinstr : g'.unpackInstructions = g.flushFormat.unpackInstructions ++ [s])
    (hargs : g'.unpackArgs = g.flushFormat.unpackArgs) (htargets : s.targets = [m.name])
    (hs : s.Decodes [m]) : g'.Decodes (members ++ [m]) := by
  obtain ⟨hflush, hnil⟩ := h.flushFormat
  refine ⟨?_, ?_, ?_, ?_, fun _ => hargs.trans hnil⟩
  · have htargets' := hflush.targets
    rw [hnil, List.append_nil] at htargets'
    rw [hinstr, hargs, hnil, List.append_nil, List.flatMap_append, htargets', List.map_append,
      List.flatMap_singleton, htargets]
    rfl
  · intro s' hs'
    rw [hinstr] at hs'
    rcases List.mem_append.1 hs' with hs' | hs'
    · exact (hflush.stmts s' hs').mono (List.subset_append_left _ _)
    · obtain rfl := List.mem_singleton.1 hs'
      exact hs.mono (List.subset_append_right _ _)
  · rw [hargs, hnil]
    simp
  · rw [hargs, hnil]
    exact fun hne => absurd rfl hne

theorem Decodes.emit {g : Gen} {members : List Member} (h : g.Decodes members) {m : Member}
    (hm : m.Kind) : (g.emit m.name (emission m.type m.extents)).Decodes (members ++ [m]) := by
  cases hm with
  | value item size hemission hpos =>
      rw [hemission]
      refine ⟨?_, fun s hs => (h.stmts s hs).mono (List.subset_append_left _ _), ?_, fun _ => ?_,
        by simp [Gen.emit, Gen.addValue]⟩
      · rw [List.map_append, ← h.targets]
        simp [Gen.emit, Gen.addValue]
      · intro x hx
        rcases List.mem_append.1 hx with hx | hx
        · obtain ⟨m', hm', hname⟩ := h.args x hx
          exact ⟨m', List.mem_append_left _ hm', hname⟩
        · obtain rfl := List.mem_singleton.1 hx
          exact ⟨m, by simp, rfl, by rw [hemission]; rfl⟩
      · have hfmt : calcsize (g.addValue m.name item size).packFmt =
            calcsize g.packFmt + item.size := by
          simp [Gen.addValue]
        exact hfmt ▸ Nat.add_pos_right _ hpos
  | items c takesBytes n hobject hemission htyped =>
      rw [hemission]
      exact h.append rfl rfl rfl ⟨m, by simp, rfl, takesBytes, _, hemission⟩
  | nested c hobject hemission htyped =>
      rw [hemission]
      exact h.append rfl rfl rfl ⟨m, by simp, rfl, _, hemission⟩

theorem Decodes.addMembers : ∀ (ms : Members) (off : Nat) {g : Gen} {members : List Member},
    g.Decodes members → ms.Visible → (∀ m ∈ ms.list, m.Kind) →
    (Gen.addMembers ms off g).Decodes (members ++ ms.list)
  | .nil, _, _, _, h, _, _ => by
      rw [Members.list, List.append_nil]
      exact h
  | .cons name access t extents rest, off, g, members, h, hvisible, hkind => by
      obtain rfl : access = .accessible := hvisible _ List.mem_cons_self
      have hnext := Decodes.addMembers rest (roundUp off t.align + extents.prod * t.size)
        ((h.padUpTo (roundUp off t.align)).emit (hkind _ List.mem_cons_self))
        (fun m hm => hvisible m (List.mem_cons_of_mem _ hm))
        (fun m hm => hkind m (List.mem_cons_of_mem _ hm))
      rw [List.append_assoc] at hnext
      exact hnext

end Gen

/-- What is known of the statements of a generated class. -/
structure Decoder (ms : Members) (stmts : List UnpackStmt) : Prop where
  targets : stmts.flatMap UnpackStmt.targets = ms.names
  decodes : ∀ s ∈ stmts, s.Decodes ms.list
  parses : ∀ s ∈ stmts, s.parses = true

theorem Members.map_name_list (ms : Members) : ms.list.map Member.name = ms.names := by
  fun_induction Members.list ms with
  | case1 => rfl
  | case2 name access t extents rest ih => exact congrArg (name :: ·) ih

/-- **Every member is decoded by one statement**, in order. -/
theorem decoder_generateClass {name : String} {ms : Members} (hms : ms.Supported)
    (hw : ms.WellFormed) (hflush : ms.FlushesValues name) :
    Decoder ms (generateClass name ms).unpackWire := by
  have hne : ms.fields ≠ [] := fun hf => hms.nonempty (Members.list_eq_nil hms.visible hf)
  have hgen := ((Gen.decodes_init.addMembers ms 0 hms.visible fun m hm =>
    (hms.member hw hm).kind).padUpTo (CType.cls name ms).size).flushFormat
  have hparses := (parses_unpackWire_iff name ms).2 hflush
  refine ⟨?_, ?_, List.all_eq_true.1 hparses⟩
  · have htargets := hgen.1.targets
    rw [hgen.2, List.append_nil, List.nil_append, Members.map_name_list] at htargets
    rw [generateClass, if_neg hne]
    exact htargets
  · rw [generateClass, if_neg hne]
    exact hgen.1.stmts

end ReflectPytest
