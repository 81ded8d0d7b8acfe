import ReflectPytest.Wire.Pending

set_option autoImplicit false

/-! # Member by member

`Members.pack` and `Members.read` go over the members of a class once and treat each on its own,
with the padding before it. The generated methods do the same however the members are spread over
formats, as long as every flush has a value to read. -/

namespace ReflectPytest

open PyStruct

namespace Members

/-- What `pack_wire` writes: padding up to each accessible member, the member, and at the end
    padding up to `size`. The next member may start at `off`, and `cur` bytes are accounted for. -/
def pack (M : PyModule) (call : PyVal → Option (List UInt8)) (attrs : List (String × PyVal))
    (size : Nat) : Members → Nat → Nat → Option (List UInt8)
  | .nil, _, cur => some (zeros (size - cur))
  | .cons _ .hidden t extents rest, off, cur =>
      pack M call attrs size rest (roundUp off t.align + extents.prod * t.size) cur
  | .cons name .accessible t extents rest, off, cur =>
      let fieldOffset := roundUp off t.align
      let e := emission t extents
      ((PyModule.get attrs name).bind fun v => e.pack M call v).bind fun c =>
        (pack M call attrs size rest (fieldOffset + extents.prod * t.size)
          (max cur fieldOffset + e.advance)).map fun p => zeros (fieldOffset - cur) ++ (c ++ p)

/-- What `unpack_wire` reads. -/
def read (M : PyModule) (call : String → List UInt8 → Option PyVal) (data : List UInt8)
    (size : Nat) : Members → Nat → Nat → PyModule.Locals → Option PyModule.Locals
  | .nil, _, cur, l => Gen.skipTo data cur size l
  | .cons _ .hidden t extents rest, off, cur, l =>
      read M call data size rest (roundUp off t.align + extents.prod * t.size) cur l
  | .cons name .accessible t extents rest, off, cur, l =>
      let fieldOffset := roundUp off t.align
      let e := emission t extents
      ((Gen.skipTo data cur fieldOffset l).bind (Gen.readMember M call data name e)).bind
        (read M call data size rest (fieldOffset + extents.prod * t.size)
          (max cur fieldOffset + e.advance))

/-- Some flush finds padding and nothing else: there is a gap before a member that is not part of a
    format, or before the end, and no value is pending. -/
def padsAlone (size : Nat) : Members → Nat → Nat → Bool → Bool
  | .nil, _, cur, values => !values && decide (cur < size)
  | .cons _ .hidden t extents rest, off, cur, values =>
      padsAlone size rest (roundUp off t.align + extents.prod * t.size) cur values
  | .cons _ .accessible t extents rest, off, cur, values =>
      let fieldOffset := roundUp off t.align
      let e := emission t extents
      (!e.isValue && !values && decide (cur < fieldOffset)) ||
        padsAlone size rest (fieldOffset + extents.prod * t.size)
          (max cur fieldOffset + e.advance) e.isValue

end Members

namespace Gen

open PyModule

variable {M : PyModule} {callP : PyVal → Option (List UInt8)}
  {callU : String → List UInt8 → Option PyVal} {attrs : List (String × PyVal)} {data : List UInt8}

/-- Whether the pending format has values; without any it has no padding either. -/
structure Pending (g : Gen) (values : Bool) : Prop where
  consistent : g.Consistent
  some : values = true → g.unpackArgs ≠ []
  none : values = false → g.packFmt = []

theorem pending_init : Pending {} false := ⟨consistent_init, Bool.noConfusion, fun _ => rfl⟩

theorem Pending.emit {g : Gen} {values : Bool} (h : g.Pending values) (offset : Nat) (name : String)
    (t : CType) (extents : List Nat) :
    ((g.padUpTo offset).emit name (emission t extents)).Pending (emission t extents).isValue := by
  have hproper := emission_proper t extents
  refine ⟨(h.consistent.padUpTo offset).emit name hproper, ?_, ?_⟩
  · intro hvalue
    cases he : emission t extents with
    | value item size => simp [Gen.emit, Gen.addValue]
    | items subType takesBytes n size => simp [he, Emission.isValue] at hvalue
    | nested subType size => simp [he, Emission.isValue] at hvalue
  · intro hvalue
    cases he : emission t extents with
    | value item size => simp [he, Emission.isValue] at hvalue
    | items subType takesBytes n size => exact flushFormat_packFmt _
    | nested subType size => exact flushFormat_packFmt _

/-- A flush after some padding. -/
theorem Pending.bare_padUpTo {g : Gen} {values : Bool} (h : g.Pending values) (offset : Nat) :
    (g.padUpTo offset).Bare ↔ values = false ∧ g.currentOffset < offset := by
  cases values with
  | false =>
      have hfmt := h.none rfl
      have hargs := h.consistent.unpackArgs_eq_nil hfmt
      unfold Bare Gen.padUpTo
      split <;> simp [*]
  | true =>
      have hargs : (g.padUpTo offset).unpackArgs ≠ [] := by
        unfold Gen.padUpTo
        split <;> exact h.some rfl
      simp [Bare, hargs]

theorem Consistent.addMembers : ∀ (ms : Members) (off : Nat) {g : Gen}, g.Consistent →
    (addMembers ms off g).Consistent
  | .nil, _, _, h => h
  | .cons _ .hidden _ _ rest, _, _, h => Consistent.addMembers rest _ h
  | .cons name .accessible t extents rest, _, _, h =>
      Consistent.addMembers rest _ ((h.padUpTo _).emit name (emission_proper t extents))

/-! ## Packing -/

/-- **The emitted instructions pack the members one after another.** -/
theorem Consistent.packed_addMembers (size : Nat) : ∀ (ms : Members) (off : Nat) {g : Gen},
    g.Consistent → ((Gen.addMembers ms off g).padUpTo size).packed M callP attrs =
      (g.packed M callP attrs).bind fun p =>
        (ms.pack M callP attrs size off g.currentOffset).map (p ++ ·)
  | .nil, off, g, _ => by
      rw [Gen.addMembers, packed_padUpTo]
      cases g.packed M callP attrs <;> rfl
  | .cons _ .hidden _ _ rest, _, _, h => Consistent.packed_addMembers size rest _ h
  | .cons name .accessible t extents rest, off, g, h => by
      have hproper := emission_proper t extents
      rw [Gen.addMembers, Consistent.packed_addMembers size rest _
        ((h.padUpTo _).emit name hproper), (h.padUpTo _).packed_emit name hproper, packed_padUpTo,
        emit_currentOffset, padUpTo_currentOffset, Members.pack]
      cases g.packed M callP attrs with
      | none => rfl
      | some p =>
          cases (get attrs name).bind fun v => (emission t extents).pack M callP v with
          | none => rfl
          | some c =>
              simp only [Option.map_some, Option.bind_some, Option.map_map]
              congr 1
              funext q
              simp

/-! ## Unpacking -/

/-- The instructions emitted for a member, if no flush is of padding alone. -/
theorem Pending.unpacked_emit {g : Gen} {values : Bool} (h : g.Pending values) (offset : Nat)
    (name : String) (t : CType) (extents : List Nat)
    (hbare :
      (!(emission t extents).isValue && !values && decide (g.currentOffset < offset)) = false) :
    ((g.padUpTo offset).emit name (emission t extents)).unpacked M callU data =
      (g.unpacked M callU data).bind fun l =>
        (skipTo data g.currentOffset offset l).bind
          (readMember M callU data name (emission t extents)) := by
  have hpad := h.consistent.padUpTo offset
  rw [hpad.unpacked_emit name (emission_proper t extents)]
  have hflush : (if (emission t extents).isValue then (g.padUpTo offset).unpacked M callU data
      else (g.padUpTo offset).flushFormat.unpacked M callU data) =
      (g.padUpTo offset).unpacked M callU data := by
    split
    · rfl
    · next hvalue =>
        refine hpad.unpacked_flushFormat fun hb => ?_
        obtain ⟨hvalues, hlt⟩ := (h.bare_padUpTo offset).1 hb
        simp [hvalue, hvalues, hlt] at hbare
  rw [hflush, h.consistent.unpacked_padUpTo offset, Option.bind_assoc]

/-- **The emitted instructions read the members one after another.** -/
theorem Pending.unpacked_addMembers (size : Nat) : ∀ (ms : Members) (off : Nat) {g : Gen}
    {values : Bool}, g.Pending values → ms.padsAlone size off g.currentOffset values = false →
    ((addMembers ms off g).padUpTo size).flushFormat.unpacked M callU data =
      (g.unpacked M callU data).bind (ms.read M callU data size off g.currentOffset)
  | .nil, off, g, values, h, hbare => by
      have hflush : ¬ (g.padUpTo size).Bare := by
        rw [h.bare_padUpTo size]
        rintro ⟨hvalues, hlt⟩
        simp [Members.padsAlone, hvalues, hlt] at hbare
      rw [addMembers, (h.consistent.padUpTo size).unpacked_flushFormat hflush,
        h.consistent.unpacked_padUpTo size]
      rfl
  | .cons _ .hidden _ _ rest, _, _, _, h, hbare => Pending.unpacked_addMembers size rest _ h hbare
  | .cons name .accessible t extents rest, off, g, values, h, hbare => by
      obtain ⟨hhere, hrest⟩ := Bool.or_eq_false_iff.1 hbare
      have hcur := emit_currentOffset (g.padUpTo (roundUp off t.align)) name (emission t extents)
      rw [padUpTo_currentOffset] at hcur
      rw [addMembers, Pending.unpacked_addMembers size rest _ (h.emit _ name t extents)
        (hcur ▸ hrest), h.unpacked_emit _ name t extents hhere, Option.bind_assoc, hcur]
      rfl

/-! ## Parsing -/

/-- Every statement of `unpack_wire` so far parses. -/
def parses (g : Gen) : Bool := g.unpackInstructions.all UnpackStmt.parses

theorem parses_flushFormat (g : Gen) [Decidable g.Bare] :
    g.flushFormat.parses = (g.parses && !decide g.Bare) := by
  by_cases hfmt : g.packFmt = []
  · have hbare : ¬ g.Bare := fun hb => hb.1 hfmt
    rw [Gen.flushFormat, if_pos hfmt]
    simp [hbare]
  · cases hargs : g.unpackArgs <;>
      simp [Gen.flushFormat, parses, Bare, UnpackStmt.parses, hfmt, hargs]

theorem Pending.parses_flushFormat {g : Gen} {values : Bool} (h : g.Pending values) (offset : Nat) :
    (g.padUpTo offset).flushFormat.parses =
      (g.parses && !(!values && decide (g.currentOffset < offset))) := by
  classical
  have hparses : (g.padUpTo offset).parses = g.parses := by
    unfold Gen.padUpTo parses
    split <;> rfl
  rw [Gen.parses_flushFormat, hparses]
  cases values <;> simp [h.bare_padUpTo offset]

theorem Pending.parses_emit {g : Gen} {values : Bool} (h : g.Pending values) (offset : Nat)
    (name : String) (t : CType) (extents : List Nat) :
    ((g.padUpTo offset).emit name (emission t extents)).parses = (g.parses &&
      !(!(emission t extents).isValue && !values && decide (g.currentOffset < offset))) := by
  have hflush := h.parses_flushFormat offset
  cases emission t extents with
  | value item size =>
      have hparses : (g.padUpTo offset).parses = g.parses := by
        unfold Gen.padUpTo parses
        split <;> rfl
      simp only [Emission.isValue, Bool.not_true, Bool.false_and, Bool.not_false, Bool.and_true]
      exact hparses
  | items subType takesBytes n size =>
      simpa [parses, Gen.emit, Gen.addItems, Emission.isValue, UnpackStmt.parses] using hflush
  | nested subType size =>
      simpa [parses, Gen.emit, Gen.addNested, Emission.isValue, UnpackStmt.parses] using hflush

/-- **The class parses unless some flush is of padding alone.** -/
theorem Pending.parses_addMembers (size : Nat) : ∀ (ms : Members) (off : Nat) {g : Gen}
    {values : Bool}, g.Pending values →
    ((addMembers ms off g).padUpTo size).flushFormat.parses =
      (g.parses && !ms.padsAlone size off g.currentOffset values)
  | .nil, _, _, _, h => h.parses_flushFormat size
  | .cons _ .hidden _ _ rest, _, _, _, h => Pending.parses_addMembers size rest _ h
  | .cons name .accessible t extents rest, off, g, values, h => by
      have hcur := emit_currentOffset (g.padUpTo (roundUp off t.align)) name (emission t extents)
      rw [padUpTo_currentOffset] at hcur
      rw [addMembers, Pending.parses_addMembers size rest _ (h.emit _ name t extents),
        h.parses_emit, hcur, Members.padsAlone, Bool.not_or, Bool.and_assoc]

end Gen

/-! ## Generated classes -/

section

variable {M : PyModule} (callP : PyVal → Option (List UInt8))
  (callU : String → List UInt8 → Option PyVal) (attrs : List (String × PyVal)) (data : List UInt8)
  (name : String) {ms : Members}

theorem runPack_generateClass (hne : ms.fields ≠ []) :
    M.runPack callP attrs (generateClass name ms).packWire =
      ms.pack M callP attrs (CType.cls name ms).size 0 0 := by
  have hgen := ((Gen.consistent_init.addMembers ms 0).padUpTo (CType.cls name ms).size)
  unfold generateClass
  rw [if_neg hne]
  refine (hgen.flushFormat.packed_of_nil (Gen.flushFormat_packFmt _)).symm.trans ?_
  rw [hgen.packed_flushFormat, Gen.consistent_init.packed_addMembers]
  simp [Gen.packed, PyModule.runPack]

theorem runUnpack_generateClass (hne : ms.fields ≠ [])
    (hbare : ms.padsAlone (CType.cls name ms).size 0 0 false = false) :
    M.runUnpack callU data (generateClass name ms).unpackWire ⟨[], 0⟩ =
      ms.read M callU data (CType.cls name ms).size 0 0 ⟨[], 0⟩ := by
  unfold generateClass
  rw [if_neg hne]
  refine (Gen.unpacked_of_nil (Gen.flushFormat_packFmt _)).symm.trans ?_
  rw [Gen.pending_init.unpacked_addMembers _ ms 0 hbare]
  simp [Gen.unpacked, Gen.readPending, PyModule.runUnpack]

theorem parses_generateClass (hne : ms.fields ≠ []) :
    (generateClass name ms).unpackWire.all UnpackStmt.parses =
      !ms.padsAlone (CType.cls name ms).size 0 0 false := by
  unfold generateClass
  rw [if_neg hne]
  exact (Gen.pending_init.parses_addMembers _ ms 0).trans (Bool.true_and _)

end

end ReflectPytest
