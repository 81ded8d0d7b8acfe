import ReflectPytest.Wire.Objects

set_option autoImplicit false

/-! # When the generated codec is exact

The two properties the generator is meant to have, for the module it emits for one class, and the
exact conditions under which it has them. -/

namespace ReflectPytest

open PyStruct PyModule

/-! ## The properties -/

/-- The emitted module can be imported, `pack_wire` writes `sizeof` bytes with every member at its
    offset and zeros in between, and `unpack_wire` on those bytes returns the value. -/
def LayoutExact (name : String) (ms : Members) : Prop :=
  (moduleOf (.cls name ms)).Imports ∧ ∀ v, (CType.cls name ms).HasType v → ∃ depth,
    (moduleOf (.cls name ms)).packWireScoped depth v = some ((CType.cls name ms).encode v) ∧
    ((CType.cls name ms).encode v).length = (CType.cls name ms).size ∧
    (moduleOf (.cls name ms)).unpackWireScoped depth name
      (.bytes ((CType.cls name ms).encode v)) = some v

/-- What `pack_wire` writes for the member are `sizeof` bytes, and `unpack_wire` reads its value
    back from them. Members that are not accessible are neither written nor read. -/
def Member.FullSize (M : PyModule) (m : Member) : Prop :=
  m.access = .accessible ∧ ∀ v, Declared m.type.isByte (fun x => m.type.HasType x) m.extents v →
    ∃ depth bs, (emission m.type m.extents).pack M (M.packWireScoped depth) v = some bs ∧
      bs.length = m.extents.prod * m.type.size ∧
      (emission m.type m.extents).unpack M (onBytes (M.unpackWireScoped depth)) bs 0 =
        some (v, bs.length)

/-- The emitted module can be imported, the members of all its classes are encoded at full size, and
    `pack_wire` writes `WIRE_SIZE = sizeof` bytes of an object with the value, which `unpack_wire`
    returns from them. -/
def FullSize (name : String) (ms : Members) : Prop :=
  (moduleOf (.cls name ms)).Imports ∧
  (∀ c ∈ (CType.cls name ms).classes, ∀ m ∈ c.2.list, m.FullSize (moduleOf (.cls name ms))) ∧
  ∀ v, (CType.cls name ms).HasType v → ∃ depth bs,
    (moduleOf (.cls name ms)).packWireScoped depth v = some bs ∧
    (CType.cls name ms).Represents v bs ∧ bs.length = (CType.cls name ms).size ∧
    (moduleOf (.cls name ms)).wireSize (.cls name) = some bs.length ∧
    (moduleOf (.cls name ms)).unpackWireScoped depth name (.bytes bs) = some v

/-- Different classes have different Python names, and none has that of something else. -/
structure CType.Named (t : CType) : Prop where
  unambiguous : Unambiguous t.classes
  names : ∀ c ∈ t.classes, c.1 ∉ pythonNames

section

variable {name : String} {ms : Members}

/-! ## Supported classes -/

theorem Generable.calls (h : Generable name ms) (hloads : Loads (CType.cls name ms).classes)
    (hms : ∀ c ∈ (CType.cls name ms).classes, c.2.Hygienic) (k : Nat) {c : String × Members}
    (hc : (CType.cls c.1 c.2).classes ⊆ (CType.cls name ms).classes)
    (hdepth : (CType.cls c.1 c.2).depth ≤ k) :
    Calls (moduleOf (.cls name ms)) ((moduleOf (.cls name ms)).packWireScoped k)
      (onBytes ((moduleOf (.cls name ms)).unpackWireScoped k)) c := by
  refine calls_of_unshadowed (h.find_eq_none (by decide)) (h.find_eq_none (by decide)) k
    (fun d hd => provides_moduleOf h.unambiguous d (hc hd)) (fun d hd => ?_)
    (h.wellFormed_class c (hc (CType.mem_classes c.1 c.2))) hdepth
  have hflush := (hloads d (hc hd)).1
  exact ⟨h.supported d (hc hd), hflush,
    (unshadowed_iff (h.supported d (hc hd)) (h.wellFormed_class d (hc hd)) hflush).2
      (hms d (hc hd))⟩

/-- A supported member is packed as its object. -/
theorem Member.Supported.pack_unpack {M : PyModule} {callP : PyVal → Option (List UInt8)}
    {callU : String → List UInt8 → Option PyVal} {m : Member} (h : m.Supported)
    (hunsigned : m.type.isSignedEnum m.extents = false) (hw : m.type.WellFormed)
    (hcalls : ∀ c, m.type.object = some c → Calls M callP callU c) {v : PyVal}
    (hv : Declared m.type.isByte (fun x => m.type.HasType x) m.extents v) :
    ∃ bs, (emission m.type m.extents).pack M callP v = some bs ∧
      bs.length = m.extents.prod * m.type.size ∧
      (emission m.type m.extents).unpack M callU bs 0 = some (v, bs.length) := by
  have hne : ∀ elem inner, m.type = .stdArray elem inner 0 → m.extents ≠ [] := by
    intro elem inner htype
    have hfilled := h.filled
    rw [htype] at hfilled
    exact absurd hfilled (by simp [CType.isEmptyArray])
  obtain ⟨hpack, hadvance⟩ := pack_whole h.coded hunsigned hne hcalls hv
  have hlen := length_encodeDeclared hv fun x hx => CType.length_encode hw hx
  have hrep := repDeclared_encodeDeclared hv fun x hx =>
    ⟨CType.represents_encode hw hx, CType.length_encode hw hx⟩
  refine ⟨_, hpack, hlen, ?_⟩
  rw [unpack_emission h.coded hunsigned hcalls hv ?_ (by rw [hlen, Nat.zero_add]), hadvance, hlen,
    Nat.zero_add]
  rw [slice, List.drop_zero, ← hlen, List.take_length]
  exact hrep

/-! ## Members at full size -/

/-- An object without members is packed to nothing. -/
theorem packed_of_nil {M : PyModule} {k : Nat} {v : PyVal} {bs : List UInt8}
    (hfound : M.find name = some (generateClass name .nil)) (hv : (CType.cls name .nil).HasType v)
    (h : M.packWireScoped k v = some bs) : bs = [] := by
  obtain ⟨attrs, rfl, hattrs⟩ := CType.eq_obj_of_hasType hv
  cases k with
  | zero => exact absurd h (by simp [packWireScoped])
  | succ k =>
      rw [packWireScoped, hfound] at h
      split at h
      · exact absurd h (by simp)
      · exact (Option.some.inj h).symm

theorem packItems_of_nil {M : PyModule} {callP : PyVal → Option (List UInt8)}
    {subType : TypeName} {xs : List PyVal} {bs : List UInt8}
    (hxs : ∀ x ∈ xs, (CType.cls name .nil).HasType x)
    (hcall : ∀ x bs, (CType.cls name .nil).HasType x → callP x = some bs → bs = [])
    (h : M.packItems callP subType xs = some bs) : bs = [] := by
  induction xs generalizing bs with
  | nil => exact (Option.some.inj h).symm
  | cons x xs ih =>
      have hx := hxs x List.mem_cons_self
      rw [packItems_cons _ xs hx] at h
      obtain ⟨data, hdata, hrest⟩ := Option.bind_eq_some_iff.1 h
      obtain ⟨rest, hitems, rfl⟩ := Option.map_eq_some_iff.1 hrest
      rw [hcall x data hx hdata, ih (fun y hy => hxs y (List.mem_cons_of_mem _ hy)) hitems,
        List.append_nil]

theorem CType.size_pos_of_object {t : CType} {c : String × Members} (h : t.object = some c) :
    0 < t.size := by
  have hcls : ∀ (name : String) (ms : Members), 0 < (CType.cls name ms).size :=
    fun name ms => CType.size_pos_of_isClass (t := .cls name ms) rfl
  unfold CType.object at h
  split at h
  · exact hcls _ _
  · next sub ms n =>
      split at h
      · exact absurd h (by simp)
      · next hn =>
          rw [CType.size, if_neg hn, List.prod_nil, Nat.one_mul]
          exact Nat.mul_pos (Nat.pos_of_ne_zero hn) (hcls sub ms)
  · exact absurd h (by simp)

end

/-- `struct Grid { char rows[2][4]; }` -/
def grid : Members := .cons "rows" .accessible (.scalar (.arith .char)) [2, 4] .nil

/-! ## Plain layouts -/

mutual

/-- Scalars with a code of their own size, arrays of bytes, nested classes of these members, and
    `std::array`s of such classes. -/
def CType.Plain : CType → List Nat → Prop
  | .scalar s, [] => s.HasOwnCode
  | .scalar s, [_] => s.isByte = true
  | .stdArray elem [] n, [] => 0 < n ∧ (elem.isByte = true ∨ elem.isClass = true ∧ elem.Plain [])
  | .cls _ ms, [] => ms.Plain
  | _, _ => False

def Members.Plain : Members → Prop
  | .nil => True
  | .cons _ _ t extents rest => t.Plain extents ∧ rest.Plain

end

theorem CType.Plain.coded {t : CType} {extents : List Nat} (h : t.Plain extents) :
    t.Coded extents := by
  unfold CType.Plain at h
  split at h
  · exact h
  · exact ⟨List.prod_nil, by simp [CType.isByte, h]⟩
  · refine Or.inr ⟨rfl, ?_⟩
    rcases h.2 with h | h
    · rw [h, Bool.true_or]
    · rw [h.1, Bool.or_true]
  · trivial
  · exact h.elim

theorem CType.Plain.filled {t : CType} {extents : List Nat} (h : t.Plain extents) :
    t.isEmptyArray = false := by
  unfold CType.Plain at h
  split at h
  · rfl
  · rfl
  · exact decide_eq_false h.1.ne'
  · rfl
  · exact h.elim

theorem Members.Plain.mem : ∀ {ms : Members} {m : Member}, ms.Plain → m ∈ ms.list →
    m.type.Plain m.extents
  | .nil, _, _, hm => by simp [Members.list] at hm
  | .cons _ _ _ _ rest, m, h, hm => by
      have hrest : rest.Plain := h.2
      rcases List.mem_cons.1 hm with rfl | hm
      · exact h.1
      · exact hrest.mem hm

mutual

/-- All class objects in a plain type are plain, and well formed with it. -/
theorem CType.Plain.instances : ∀ {t : CType} {extents : List Nat}, t.Plain extents →
    t.WellFormed → ∀ ms ∈ t.instances, ms.Plain ∧ ms.WellFormed
  | .scalar _, _, _, _, ms, hms => by simp [CType.instances] at hms
  | .cls _ ms', [], h, hw, ms, hms => by
      rw [CType.instances] at hms
      rcases List.mem_cons.1 hms with rfl | hms
      · exact ⟨h, hw.1⟩
      · exact Members.Plain.instances h hw.1 ms hms
  | .stdArray elem [] n, [], h, hw, ms, hms => by
      rw [CType.instances] at hms
      split at hms
      · exact absurd hms (by simp)
      · rcases h.2 with h | h
        · cases elem with
          | scalar s => simp [CType.instances] at hms
          | _ => exact absurd h Bool.false_ne_true
        · exact CType.Plain.instances h.2 hw.2 ms hms
  | .cls _ _, _ :: _, h, _, _, _ => h.elim
  | .stdArray _ [] _, _ :: _, h, _, _, _ => h.elim
  | .stdArray _ (_ :: _) _, _, h, _, _, _ => h.elim

theorem Members.Plain.instances : ∀ {ms' : Members}, ms'.Plain → ms'.WellFormed →
    ∀ ms ∈ ms'.instances, ms.Plain ∧ ms.WellFormed
  | .nil, _, _, ms, hms => by simp [Members.instances] at hms
  | .cons _ _ t _ rest, h, hw, ms, hms => by
      have hrest : rest.Plain := h.2
      rw [Members.instances, List.mem_append] at hms
      rcases hms with hms | hms
      · exact CType.Plain.instances h.1 hw.2.1 ms hms
      · exact Members.Plain.instances hrest hw.2.2 ms hms

end

/-- The classes emitted for a class are those of its objects. -/
theorem CType.classes_instances : ∀ (k : Nat) {c : String × Members},
    (∀ ms ∈ (CType.cls c.1 c.2).instances, ∀ m ∈ ms.list, m.Supported) →
    (CType.cls c.1 c.2).depth ≤ k →
    ∀ d ∈ (CType.cls c.1 c.2).classes, d.2 ∈ (CType.cls c.1 c.2).instances
  | 0, _, _, hdepth => by simp [CType.depth] at hdepth
  | k + 1, (name, ms), hms, hdepth => by
      intro d hd
      rw [CType.classes, List.mem_append, List.mem_singleton] at hd
      rcases hd with hd | rfl
      · obtain ⟨m, hm, hacc, c, hc, hin⟩ :=
          Members.classes_of_object (hms ms (CType.mem_instances name ms)) hd
        obtain ⟨hinst, -, hlt, -⟩ :=
          (CType.object_subset hm hacc hc : _ ∧ _ ∧ _ < (CType.cls name ms).depth ∧ _)
        exact hinst (CType.classes_instances k (fun ms' hms' => hms ms' (hinst hms'))
          (Nat.le_of_lt_succ (hlt.trans_le hdepth)) d hin)
      · exact CType.mem_instances name ms

section

variable {name : String} {ms : Members}

theorem Members.Plain.members (hplain : ms.Plain) (hw : (CType.cls name ms).WellFormed) :
    ∀ ms' ∈ (CType.cls name ms).instances, ∀ m ∈ ms'.list, m.Supported := by
  have hcls : (CType.cls name ms).Plain [] := hplain
  intro ms' hms' m hm
  obtain ⟨hplain', hw'⟩ := hcls.instances hw ms' hms'
  have hm' := hplain'.mem hm
  exact ⟨hm'.coded, hm'.filled, (Members.wellFormed_of_mem hw' hm).1⟩

end

/-- `struct Reading { Header header; double value; }` -/
def reading : Members :=
  .cons "header" .accessible (.cls "Header" header) []
    (.cons "value" .accessible (.scalar .double) [] .nil)

/-- `struct Position { double x; }` -/
def position : Members := .cons "x" .accessible (.scalar .double) [] .nil

/-- `struct Sample { Header header; Position position; }` -/
def sample : Members :=
  .cons "header" .accessible (.cls "Header" header) []
    (.cons "position" .accessible (.cls "Position" position) [] .nil)

end ReflectPytest
