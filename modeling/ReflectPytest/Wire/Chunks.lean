import Mathlib.Data.List.Chain
import ReflectPytest.Wire.Statements

set_option autoImplicit false

/-! # Members and the statements that decode them

Neighbouring values are decoded by one format, everything else on its own, and no format follows
another. So what the names in `unpack_wire` stand for can be said of the members themselves. -/

namespace ReflectPytest

open PyStruct

/-- One `struct.unpack_from`. -/
def UnpackStmt.isFormat : UnpackStmt → Bool
  | .unpackFrom _ _ => true
  | _ => false

/-- The statement that would decode the member on its own. -/
def Member.stmt (m : Member) : UnpackStmt :=
  match emission m.type m.extents with
  | .value item _ => .unpackFrom [m.name] [item]
  | .items subType _ n _ => .forRange m.name n subType
  | .nested subType _ => .nested m.name subType

/-- No member is called like something that the methods of the class still need: a method or a
    class, a variable of the decoder, or a module or a builtin of Python. -/
structure Members.Hygienic (ms : Members) : Prop where
  defaults : (ms.names.dropWhile (!classAttributes.contains ·)).all classAttributes.contains = true
  method : "pack_wire" ∉ ms.names
  cls : "cls" ∉ ms.names
  globals : ∀ m ∈ ms.list, ∀ x ∈ m.stmt.globals, x ∉ localNames (ms.list.map Member.stmt)
  after : ∀ m ∈ ms.list, m.name ∉ m.stmt.usesAfter
  later : ms.list.Pairwise fun m m' =>
    (m.stmt.isFormat && m'.stmt.isFormat) = false → m.name ∉ m'.stmt.uses

instance (ms : Members) : Decidable ms.Hygienic :=
  decidable_of_iff ((ms.names.dropWhile (!classAttributes.contains ·)).all
      classAttributes.contains = true ∧ "pack_wire" ∉ ms.names ∧ "cls" ∉ ms.names ∧
      (∀ m ∈ ms.list, ∀ x ∈ m.stmt.globals, x ∉ localNames (ms.list.map Member.stmt)) ∧
      (∀ m ∈ ms.list, m.name ∉ m.stmt.usesAfter) ∧ ms.list.Pairwise fun m m' =>
        (m.stmt.isFormat && m'.stmt.isFormat) = false → m.name ∉ m'.stmt.uses)
    ⟨fun ⟨h₁, h₂, h₃, h₄, h₅, h₆⟩ => ⟨h₁, h₂, h₃, h₄, h₅, h₆⟩,
      fun ⟨h₁, h₂, h₃, h₄, h₅, h₆⟩ => ⟨h₁, h₂, h₃, h₄, h₅, h₆⟩⟩

/-! ## Formats -/

/-- No format follows another. -/
def Alternating (stmts : List UnpackStmt) : Prop :=
  stmts.IsChain fun s s' => (s.isFormat && s'.isFormat) = false

namespace Gen

/-- The instructions alternate, and do not end in a format. -/
structure Alternates (g : Gen) : Prop where
  alternating : Alternating g.unpackInstructions
  last : ∀ s ∈ g.unpackInstructions.getLast?, s.isFormat = false

theorem Alternates.flushFormat {g : Gen} (h : g.Alternates) :
    Alternating g.flushFormat.unpackInstructions := by
  unfold Gen.flushFormat
  split
  · exact h.alternating
  · refine h.alternating.append (.singleton _) fun s hs s' hs' => ?_
    rw [h.last s hs, Bool.false_and]

/-- A statement that is no format after a flush. -/
theorem Alternates.append {g g' : Gen} (h : g.Alternates) {s : UnpackStmt}
    (hs : s.isFormat = false)
    (hinstr : g'.unpackInstructions = g.flushFormat.unpackInstructions ++ [s]) :
    g'.Alternates := by
  refine ⟨?_, ?_⟩
  · rw [hinstr]
    refine h.flushFormat.append (.singleton s) fun s₁ _ s₂ hs₂ => ?_
    rw [← Option.some.inj hs₂, hs, Bool.and_false]
  · rw [hinstr, List.getLast?_concat]
    exact fun s' hs' => Option.some.inj hs' ▸ hs

theorem Alternates.padUpTo {g : Gen} (h : g.Alternates) (offset : Nat) :
    (g.padUpTo offset).Alternates := by
  unfold Gen.padUpTo
  split
  · exact ⟨h.alternating, h.last⟩
  · exact h

theorem Alternates.emit {g : Gen} (h : g.Alternates) (name : String) (e : Emission) :
    (g.emit name e).Alternates := by
  cases e with
  | value item size => exact ⟨h.alternating, h.last⟩
  | items subType takesBytes n size => exact h.append (s := .forRange name n subType) rfl rfl
  | nested subType size => exact h.append (s := .nested name subType) rfl rfl

theorem Alternates.addMembers : ∀ (ms : Members) (off : Nat) {g : Gen}, g.Alternates →
    (Gen.addMembers ms off g).Alternates
  | .nil, _, _, h => h
  | .cons _ .hidden _ _ rest, _, _, h => Alternates.addMembers rest _ h
  | .cons name .accessible t extents rest, _, _, h =>
      Alternates.addMembers rest _ ((h.padUpTo _).emit name (emission t extents))

end Gen

theorem alternating_generateClass (name : String) (ms : Members) :
    Alternating (generateClass name ms).unpackWire := by
  have hinit : Gen.Alternates {} := ⟨.nil, by simp⟩
  unfold generateClass
  split
  · exact .nil
  · exact ((hinit.addMembers ms 0).padUpTo (CType.cls name ms).size).flushFormat

/-! ## Members and statements -/

/-- The statement uses the same names. -/
structure UnpackStmt.Like (s t : UnpackStmt) : Prop where
  isFormat : s.isFormat = t.isFormat
  uses : s.uses = t.uses
  usesAfter : s.usesAfter = t.usesAfter
  temporaries : s.temporaries = t.temporaries
  globals : s.globals = t.globals

theorem Members.eq_of_name {ms : Members} (hnodup : ms.names.Nodup) {m m' : Member}
    (hm : m ∈ ms.list) (hm' : m' ∈ ms.list) (h : m.name = m'.name) : m = m' := by
  rw [← Members.map_name_list] at hnodup
  exact List.inj_on_of_nodup_map hnodup hm hm' h

/-- A statement uses the names that each of its members is decoded with. -/
theorem Decoder.like {ms : Members} {stmts : List UnpackStmt} (h : Decoder ms stmts)
    (hnodup : ms.names.Nodup) {s : UnpackStmt} (hs : s ∈ stmts) {m : Member} (hm : m ∈ ms.list)
    (hx : m.name ∈ s.targets) : s.Like m.stmt := by
  have hsame : ∀ {m' : Member}, m' ∈ ms.list → m'.name = m.name → m' = m := fun hm' hname =>
    Members.eq_of_name hnodup hm' hm hname
  unfold Member.stmt
  cases s with
  | unpackFrom targets fmt =>
      obtain ⟨m', hm', hname, hvalue⟩ := (h.decodes _ hs).2 _ hx
      obtain rfl := hsame hm' hname
      cases hemission : emission m'.type m'.extents with
      | value item size => exact ⟨rfl, rfl, rfl, rfl, rfl⟩
      | _ =>
          rw [hemission] at hvalue
          exact absurd hvalue Bool.false_ne_true
  | forRange field n subType =>
      obtain ⟨m', hm', hname, takesBytes, size, hemission⟩ := h.decodes _ hs
      obtain rfl := hsame hm' (hname.trans (List.mem_singleton.1 hx).symm)
      rw [hemission, hname]
      exact ⟨rfl, rfl, rfl, rfl, rfl⟩
  | nested field subType =>
      obtain ⟨m', hm', hname, size, hemission⟩ := h.decodes _ hs
      obtain rfl := hsame hm' (hname.trans (List.mem_singleton.1 hx).symm)
      rw [hemission, hname]
      exact ⟨rfl, rfl, rfl, rfl, rfl⟩

/-- Members in order, each in the targets of its statement. -/
structure Chunked (stmts : List UnpackStmt) (members : List Member) : Prop where
  targets : stmts.flatMap UnpackStmt.targets = members.map Member.name
  ne_nil : ∀ s ∈ stmts, s.targets ≠ []
  like : ∀ s ∈ stmts, ∀ m ∈ members, m.name ∈ s.targets → s.Like m.stmt

theorem UnpackStmt.uses_of_isFormat {s : UnpackStmt} (h : s.isFormat = true) (t : UnpackStmt) :
    s.uses ⊆ t.uses := by
  cases s with
  | unpackFrom targets fmt => cases t <;> simp [uses]
  | _ => exact absurd h Bool.false_ne_true

section

variable {stmts : List UnpackStmt} {members : List Member}

/-- Every statement decodes a member. -/
theorem Chunked.exists_member (h : Chunked stmts members) {s : UnpackStmt} (hs : s ∈ stmts) :
    ∃ m ∈ members, m.name ∈ s.targets ∧ s.Like m.stmt := by
  obtain ⟨x, hx⟩ := List.exists_mem_of_ne_nil _ (h.ne_nil s hs)
  have hmem : x ∈ members.map Member.name := h.targets ▸ List.mem_flatMap.2 ⟨s, hs, hx⟩
  obtain ⟨m, hm, rfl⟩ := List.mem_map.1 hmem
  exact ⟨m, hm, hx, h.like s hs m hm hx⟩

/-- Every member is decoded by a statement. -/
theorem Chunked.exists_stmt (h : Chunked stmts members) {m : Member} (hm : m ∈ members) :
    ∃ s ∈ stmts, m.name ∈ s.targets ∧ s.Like m.stmt := by
  have hmem : m.name ∈ stmts.flatMap UnpackStmt.targets := h.targets ▸ List.mem_map_of_mem hm
  obtain ⟨s, hs, hx⟩ := List.mem_flatMap.1 hmem
  exact ⟨s, hs, hx, h.like s hs m hm hx⟩

/-- The members of the first statement, and those of the others. -/
theorem Chunked.uncons {s : UnpackStmt} (h : Chunked (s :: stmts) members) :
    ∃ first others, members = first ++ others ∧ first.map Member.name = s.targets ∧
      (∀ m ∈ first, s.Like m.stmt) ∧ Chunked stmts others := by
  have htargets := h.targets
  rw [List.flatMap_cons] at htargets
  obtain ⟨first, others, rfl, hfirst, hothers⟩ := List.map_eq_append_iff.1 htargets.symm
  refine ⟨first, others, rfl, hfirst, fun m hm => ?_, hothers.symm, fun s' hs' => ?_,
    fun s' hs' m hm => ?_⟩
  · exact h.like s List.mem_cons_self m (List.mem_append_left _ hm)
      (hfirst ▸ List.mem_map_of_mem hm)
  · exact h.ne_nil s' (List.mem_cons_of_mem _ hs')
  · exact h.like s' (List.mem_cons_of_mem _ hs') m (List.mem_append_right _ hm)

/-- A member is in no later statement's way if it is in no later member's. -/
theorem Chunked.notMem_uses_iff {s : UnpackStmt} (h : Chunked stmts members)
    (halt : Alternating (s :: stmts)) {m : Member} (hm : s.Like m.stmt) :
    (∀ s' ∈ stmts, m.name ∉ s'.uses) ↔ ∀ m' ∈ members,
      (m.stmt.isFormat && m'.stmt.isFormat) = false → m.name ∉ m'.stmt.uses := by
  constructor
  · intro hstmts m' hm' _
    obtain ⟨s', hs', -, hlike⟩ := h.exists_stmt hm'
    exact hlike.uses ▸ hstmts s' hs'
  · intro hmembers s' hs' huses
    obtain ⟨m', hm', -, hlike⟩ := h.exists_member hs'
    cases hformats : m.stmt.isFormat && m'.stmt.isFormat with
    | false => exact hmembers m' hm' hformats (hlike.uses ▸ huses)
    | true =>
        -- two formats are not neighbours, and what is between them uses what a format does
        obtain ⟨hformat, hformat'⟩ := Bool.and_eq_true_iff.1 hformats
        obtain ⟨t, rest, rfl⟩ := List.exists_cons_of_ne_nil (List.ne_nil_of_mem hs')
        obtain ⟨mt, hmt, -, hliket⟩ := h.exists_member List.mem_cons_self
        have hbetween := halt.rel_head? rfl
        rw [hm.isFormat, hformat, Bool.true_and] at hbetween
        refine hmembers mt hmt ?_ (hliket.uses ▸ s'.uses_of_isFormat ?_ t huses)
        · rw [← hliket.isFormat, hbetween, Bool.and_false]
        · rw [hlike.isFormat, hformat']

/-- The members of one statement are in no other's way. -/
theorem pairwise_of_like {s : UnpackStmt} (hnames : members.map Member.name = s.targets)
    (hlike : ∀ m ∈ members, s.Like m.stmt) : members.Pairwise fun m m' =>
      (m.stmt.isFormat && m'.stmt.isFormat) = false → m.name ∉ m'.stmt.uses := by
  cases hformat : s.isFormat with
  | true =>
      refine List.pairwise_of_forall_mem_list fun m hm m' hm' hfalse => ?_
      rw [← (hlike m hm).isFormat, ← (hlike m' hm').isFormat, hformat] at hfalse
      exact absurd hfalse (by decide)
  | false =>
      have hlen := congrArg List.length hnames
      rw [List.length_map] at hlen
      have hone : s.targets.length = 1 := by
        cases s with
        | unpackFrom targets fmt => exact absurd hformat (by simp [UnpackStmt.isFormat])
        | _ => rfl
      obtain ⟨m, rfl⟩ := List.length_eq_one_iff.1 (hlen.trans hone)
      exact List.pairwise_singleton _ m

/-- **No member is overwritten if none is in the way of another.** -/
theorem Chunked.unclobbered_iff : ∀ {stmts : List UnpackStmt} {members : List Member},
    Chunked stmts members → Alternating stmts → (Unclobbered stmts ↔
      (∀ m ∈ members, m.name ≠ "cls" ∧ m.name ∉ m.stmt.usesAfter) ∧ members.Pairwise fun m m' =>
        (m.stmt.isFormat && m'.stmt.isFormat) = false → m.name ∉ m'.stmt.uses)
  | [], members, h, _ => by
      obtain rfl := List.map_eq_nil_iff.1 h.targets.symm
      simp [Unclobbered]
  | s :: rest, members, h, halt => by
      obtain ⟨first, others, rfl, hfirst, hlike, hothers⟩ := h.uncons
      have htail := hothers.unclobbered_iff halt.tail
      have hfirst' := pairwise_of_like hfirst hlike
      have hhead : (∀ x ∈ s.targets, x ≠ "cls" ∧ x ∉ s.usesAfter ∧ ∀ s' ∈ rest, x ∉ s'.uses) ↔
          (∀ m ∈ first, m.name ≠ "cls" ∧ m.name ∉ m.stmt.usesAfter) ∧
          ∀ m ∈ first, ∀ m' ∈ others,
            (m.stmt.isFormat && m'.stmt.isFormat) = false → m.name ∉ m'.stmt.uses := by
        rw [← hfirst, List.forall_mem_map, ← forall₂_and]
        refine forall₂_congr fun m hm => ?_
        rw [(hlike m hm).usesAfter, hothers.notMem_uses_iff halt (hlike m hm), and_assoc]
      rw [Unclobbered, hhead, htail, List.forall_mem_append, List.pairwise_append]
      tauto

end

/-! ## Classes -/

theorem mem_localNames {stmts : List UnpackStmt} {x : String} : x ∈ localNames stmts ↔
    x ∈ ["cls", "data", "offset"] ∨ ∃ s ∈ stmts, x ∈ s.targets ∨ x ∈ s.temporaries := by
  simp [localNames, or_assoc]

section

variable {name : String} {ms : Members}

theorem Decoder.chunked {stmts : List UnpackStmt} (h : Decoder ms stmts) (hnodup : ms.names.Nodup) :
    Chunked stmts ms.list := by
  refine ⟨h.targets.trans (Members.map_name_list ms).symm, fun s hs => ?_,
    fun s hs m hm hx => h.like hnodup hs hm hx⟩
  cases s with
  | unpackFrom targets fmt =>
      have hparses := h.parses _ hs
      rintro rfl
      exact absurd hparses Bool.false_ne_true
  | _ => exact List.cons_ne_nil _ _

theorem Chunked.mem_localNames_iff {stmts : List UnpackStmt} {members : List Member}
    (h : Chunked stmts members) (x : String) :
    x ∈ localNames stmts ↔ x ∈ localNames (members.map Member.stmt) := by
  have htarget : ∀ m : Member, m.stmt.targets = [m.name] := by
    intro m
    unfold Member.stmt
    split <;> rfl
  rw [mem_localNames, mem_localNames]
  refine or_congr_right ⟨?_, ?_⟩
  · rintro ⟨s, hs, hx | hx⟩
    · have hmem : x ∈ members.map Member.name := h.targets ▸ List.mem_flatMap.2 ⟨s, hs, hx⟩
      obtain ⟨m, hm, rfl⟩ := List.mem_map.1 hmem
      exact ⟨m.stmt, List.mem_map_of_mem hm,
        .inl (by rw [htarget]; exact List.mem_singleton_self _)⟩
    · obtain ⟨m, hm, -, hlike⟩ := h.exists_member hs
      exact ⟨m.stmt, List.mem_map_of_mem hm, .inr (hlike.temporaries ▸ hx)⟩
  · rintro ⟨t, ht, hx⟩
    obtain ⟨m, hm, rfl⟩ := List.mem_map.1 ht
    obtain ⟨s, hs, hmem, hlike⟩ := h.exists_stmt hm
    rw [htarget, ← hlike.temporaries] at hx
    refine ⟨s, hs, hx.imp_left fun hx => ?_⟩
    rwa [List.mem_singleton.1 hx]

/-- **The names in the methods of a class mean what they should if and only if no member has the
    name of something that is still needed.** -/
theorem unshadowed_iff (hms : ms.Supported) (hw : (CType.cls name ms).WellFormed)
    (hflush : ms.FlushesValues name) : (generateClass name ms).Unshadowed ↔ ms.Hygienic := by
  have hchunked := (decoder_generateClass hms hw.1 hflush).chunked hw.2
  have hunclobbered := hchunked.unclobbered_iff (alternating_generateClass name ms)
  have hfields : (generateClass name ms).fields.map Prod.fst = ms.names := by
    rw [generateClass_fields, Members.fields_names hms.visible]
  have hcls : (∀ m ∈ ms.list, m.name ≠ "cls") ↔ "cls" ∉ ms.names := by
    rw [← Members.map_name_list, List.mem_map]
    exact ⟨fun h ⟨m, hm, hname⟩ => h m hm hname, fun h m hm hname => h ⟨m, hm, hname⟩⟩
  have hglobals : (∀ s ∈ (generateClass name ms).unpackWire, ∀ x ∈ s.globals,
      x ∉ localNames (generateClass name ms).unpackWire) ↔
      ∀ m ∈ ms.list, ∀ x ∈ m.stmt.globals, x ∉ localNames (ms.list.map Member.stmt) := by
    refine ⟨fun h m hm x hx => ?_, fun h s hs x hx => ?_⟩
    · obtain ⟨s, hs, -, hlike⟩ := hchunked.exists_stmt hm
      exact mt (hchunked.mem_localNames_iff x).2 (h s hs x (hlike.globals ▸ hx))
    · obtain ⟨m, hm, -, hlike⟩ := hchunked.exists_member hs
      exact mt (hchunked.mem_localNames_iff x).1 (h m hm x (hlike.globals ▸ hx))
  constructor
  · rintro ⟨hdefaults, hmethod, hg, hl⟩
    obtain ⟨hmembers, hlater⟩ := hunclobbered.1 hl
    unfold PyClass.defaultsLast at hdefaults
    rw [hfields] at hdefaults hmethod
    exact ⟨hdefaults, hmethod, hcls.1 fun m hm => (hmembers m hm).1, hglobals.1 hg,
      fun m hm => (hmembers m hm).2, hlater⟩
  · rintro ⟨hdefaults, hmethod, hc, hg, hafter, hlater⟩
    refine ⟨?_, hfields ▸ hmethod, hglobals.2 hg,
      hunclobbered.2 ⟨fun m hm => ⟨hcls.2 hc m hm, hafter m hm⟩, hlater⟩⟩
    unfold PyClass.defaultsLast
    rw [hfields]
    exact hdefaults

end

end ReflectPytest
