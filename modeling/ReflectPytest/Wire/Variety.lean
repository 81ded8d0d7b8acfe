import ReflectPytest.Wire.Chunks
import ReflectPytest.Wire.Overwrites

set_option autoImplicit false

/-! # Values that tell members apart

Every supported member has more than one value, whatever the other members are, and one that a
moving offset cannot return to. -/

namespace ReflectPytest

open PyStruct PyModule

/-! ## Choosing values -/

/-- The attributes with another value for one of them. -/
def setAttr (attrs : List (String × PyVal)) (x : String) (v : PyVal) : List (String × PyVal) :=
  attrs.map fun a => if a.1 = x then (x, v) else a

theorem mem_setAttr_self {attrs : List (String × PyVal)} {x : String} {v : PyVal}
    (h : x ∈ attrs.map Prod.fst) : (x, v) ∈ setAttr attrs x v := by
  obtain ⟨a, ha, rfl⟩ := List.mem_map.1 h
  exact List.mem_map.2 ⟨a, ha, if_pos rfl⟩

theorem mem_setAttr_of_ne {attrs : List (String × PyVal)} {x : String} {a : String × PyVal}
    (v : PyVal) (h : a ∈ attrs) (hne : a.1 ≠ x) : a ∈ setAttr attrs x v :=
  List.mem_map.2 ⟨a, h, if_neg hne⟩

theorem Members.haveTypes_setAttr {x : String} {v : PyVal} : ∀ {ms : Members}
    {attrs : List (String × PyVal)}, ms.HaveTypes attrs →
    (∀ m ∈ ms.list, m.name = x → Declared m.type.isByte (fun x => m.type.HasType x) m.extents v) →
    ms.HaveTypes (setAttr attrs x v)
  | .nil, [], _, _ => trivial
  | .nil, _ :: _, h, _ => h.elim
  | .cons _ _ _ _ _, [], h, _ => h.elim
  | .cons name access t extents rest, (name', w) :: attrs, h, hv => by
      obtain ⟨rfl, hw, hrest⟩ := h
      have hnext := rest.haveTypes_setAttr hrest fun m hm => hv m (List.mem_cons_of_mem _ hm)
      unfold setAttr at hnext ⊢
      rw [List.map_cons]
      by_cases hx : name' = x
      · subst hx
        rw [if_pos rfl]
        exact ⟨rfl, hv _ List.mem_cons_self rfl, hnext⟩
      · rw [if_neg hx]
        exact ⟨rfl, hw, hnext⟩

/-- Default values, but for one member. -/
theorem Members.haveTypes_defaults_setAttr {ms : Members} (hnodup : ms.names.Nodup) {m : Member}
    (hm : m ∈ ms.list) {v : PyVal}
    (hv : Declared m.type.isByte (fun x => m.type.HasType x) m.extents v) :
    ms.HaveTypes (setAttr ms.defaults m.name v) ∧
      (m.name, v) ∈ setAttr ms.defaults m.name v := by
  refine ⟨Members.haveTypes_setAttr ms.defaults_haveTypes fun m' hm' hname => ?_, ?_⟩
  · rw [Members.eq_of_name hnodup hm' hm hname]
    exact hv
  · refine mem_setAttr_self ?_
    rw [Members.names_of_haveTypes ms.defaults_haveTypes, ← Members.map_name_list]
    exact List.mem_map_of_mem hm

/-- There is more than one value. -/
def Varied (P : PyVal → Prop) : Prop := ∃ v w, P v ∧ P w ∧ v ≠ w

theorem varied_bytes {P : PyVal → Prop} {n : Nat} (hn : 0 < n) : Varied (HoldsArray true P n) := by
  refine ⟨.bytes (List.replicate n 0), .bytes (List.replicate n 1), ⟨rfl, List.length_replicate⟩,
    ⟨rfl, List.length_replicate⟩, fun heq => ?_⟩
  have hmem := PyVal.bytes.inj heq ▸ List.mem_replicate.2 ⟨hn.ne', rfl⟩
  exact absurd (List.eq_of_mem_replicate hmem) (by decide)

theorem Varied.list {P : PyVal → Prop} (h : Varied P) (n : Nat) :
    Varied (HoldsArray false P (n + 1)) := by
  obtain ⟨v, w, hv, hw, hne⟩ := h
  refine ⟨_, _, holdsArray_replicate (n + 1) hv, holdsArray_replicate (n + 1) hw, fun heq => ?_⟩
  rw [PyVal.list.injEq, List.replicate_succ, List.replicate_succ, List.cons.injEq] at heq
  exact hne heq.1

theorem Scalar.varied {s : Scalar} (h : s.HasOwnCode) : Varied s.HasValue := by
  have hint : ∀ t : IntType, t.InRange 0 ∧ t.InRange 1 := fun t => by cases t <;> decide
  have hne : PyVal.int 0 ≠ .int 1 := by simp
  cases s with
  | arith t =>
      cases t
      case bool => exact ⟨.bool false, .bool true, trivial, trivial, by simp⟩
      all_goals exact ⟨.int 0, .int 1, (hint _).1, (hint _).2, hne⟩
  | enum name t => exact ⟨.int 0, .int 1, (hint t).1, (hint t).2, hne⟩
  | float => exact ⟨.float32 0, .float32 1, trivial, trivial, by simp⟩
  | double => exact ⟨.float64 0, .float64 1, trivial, trivial, by simp⟩
  | half => exact absurd h (by decide)
  | longDouble => exact absurd h (by decide)
  | other size align => exact h.elim

/-- A supported member has more than one value, if the objects of its class have. -/
theorem Member.Supported.varied {m : Member} (h : m.Supported)
    (hobject : ∀ c, m.type.object = some c → Varied (CType.cls c.1 c.2).HasType) :
    Varied (Declared m.type.isByte (fun x => m.type.HasType x) m.extents) := by
  cases h.kind with
  | items c takesBytes n hc hemission htyped =>
      obtain ⟨v, w, hv, hw, hne⟩ := (hobject c hc).list n
      exact ⟨v, w, (htyped v).2 hv, (htyped w).2 hw, hne⟩
  | nested c hc hemission htyped =>
      obtain ⟨v, w, hv, hw, hne⟩ := hobject c hc
      exact ⟨v, w, (htyped v).2 hv, (htyped w).2 hw, hne⟩
  | value item size hemission hpos =>
      obtain ⟨name, access, t, extents⟩ := m
      obtain ⟨hcoded, hfilled, hext⟩ := h
      rcases extents with - | ⟨n, inner⟩
      · cases t with
        | scalar s => exact Scalar.varied hcoded
        | cls sub ms => exact absurd hemission (by simp [emission])
        | stdArray elem inner n =>
            have hn : n ≠ 0 := by simpa [CType.isEmptyArray] using hfilled
            have hbyte : (elem.isByte && inner.isEmpty) = true := by
              by_contra hbyte
              rw [emission_stdArray, if_neg hbyte] at hemission
              exact absurd hemission (by simp)
            obtain ⟨v, w, hv, hw, hne⟩ := varied_bytes
              (P := Declared elem.isByte (fun x => elem.HasType x) inner) (Nat.pos_of_ne_zero hn)
            rw [← hbyte] at hv hw
            exact ⟨v, w, hv, hw, hne⟩
      · have hbyte : t.isByte = true := by
          by_contra hbyte
          rw [emission_array, if_neg hbyte] at hemission
          exact absurd hemission (by simp)
        have hprod : 0 < (n :: inner).prod := by
          rw [List.prod_cons, (CType.coded_array.1 hcoded).1, Nat.mul_one]
          exact hext n List.mem_cons_self
        obtain ⟨v, w, hv, hw, hne⟩ := varied_bytes (P := fun x => t.HasType x) hprod
        refine ⟨v, w, ?_, ?_, hne⟩
        · rw [Declared, if_neg (List.cons_ne_nil n inner), hbyte]
          exact hv
        · rw [Declared, if_neg (List.cons_ne_nil n inner), hbyte]
          exact hw

/-- **A supported class has more than one object.** -/
theorem CType.varied : ∀ (k : Nat) {c : String × Members},
    (∀ d ∈ (CType.cls c.1 c.2).classes, d.2.Supported) → (CType.cls c.1 c.2).WellFormed →
    (CType.cls c.1 c.2).depth ≤ k → Varied (CType.cls c.1 c.2).HasType
  | 0, _, _, _, hdepth => by simp [CType.depth] at hdepth
  | k + 1, (name, ms), hclasses, hw, hdepth => by
      have hms := hclasses _ (CType.mem_classes name ms)
      obtain ⟨m, hm⟩ := List.exists_mem_of_ne_nil _ hms.nonempty
      obtain ⟨v, w, hv, hw', hne⟩ := (hms.member hw.1 hm).varied fun c hc => by
        obtain ⟨-, hcls, hlt, hwf⟩ := CType.object_subset hm (hms.visible m hm) hc
        exact CType.varied k (fun d hd => hclasses d (hcls hd)) (hwf hw)
          (Nat.le_of_lt_succ (hlt.trans_le hdepth))
      obtain ⟨hattrs, hmem⟩ := Members.haveTypes_defaults_setAttr hw.2 hm hv
      obtain ⟨hattrs', hmem'⟩ := Members.haveTypes_defaults_setAttr hw.2 hm hw'
      refine ⟨.obj name _, .obj name _, ⟨rfl, hattrs⟩, ⟨rfl, hattrs'⟩, fun heq => hne ?_⟩
      have hnodup : ((setAttr ms.defaults m.name v).map Prod.fst).Nodup := by
        rw [Members.names_of_haveTypes hattrs]
        exact hw.2
      rw [← (PyVal.obj.inj heq).2] at hmem'
      exact Option.some.inj ((get_of_mem hnodup hmem).symm.trans (get_of_mem hnodup hmem'))

/-! ## Values that drift -/

theorem drifts_of_ne_float64 {v : PyVal} (h : ∀ x, v ≠ .float64 x) : Drifts v := by
  intro n hn heq
  rcases PyVal.add?_int_right heq with ⟨i, hi, rfl⟩ | ⟨-, x, rfl⟩
  · have hsame : i + n = i := Option.some.inj hi
    omega
  · exact h x rfl

theorem drifts_negativeZero : Drifts (.float64 negativeZero) :=
  fun _ hn => add?_negativeZero hn.le

/-- Every type has a value that drifts. -/
theorem CType.exists_drifts (t : CType) (extents : List Nat) :
    ∃ v, Declared t.isByte (fun x => t.HasType x) extents v ∧ Drifts v := by
  by_cases hdouble : t = .scalar .double ∧ extents = []
  · obtain ⟨rfl, rfl⟩ := hdouble
    exact ⟨.float64 negativeZero, trivial, drifts_negativeZero⟩
  · refine ⟨_, declared_declaredDefault t.default_hasType extents, drifts_of_ne_float64 fun x => ?_⟩
    unfold declaredDefault
    split
    · next hnil =>
        cases t with
        | scalar s =>
            cases s
            case double => exact absurd ⟨rfl, hnil⟩ hdouble
            case arith t => cases t <;> simp [CType.default, Scalar.default]
            all_goals simp [CType.default, Scalar.default]
        | stdArray elem inner n =>
            rw [CType.default]
            split <;> simp
        | cls name ms => simp [CType.default]
    · split <;> simp

/-- Members with the defaults, but for one whose value drifts. -/
theorem Members.exists_drifting {ms : Members} (hnodup : ms.names.Nodup) (x : String) :
    ∃ attrs, ms.HaveTypes attrs ∧ ∀ w, (x, w) ∈ attrs → Drifts w := by
  by_cases hx : ∃ m ∈ ms.list, m.name = x
  · obtain ⟨m, hm, rfl⟩ := hx
    obtain ⟨v, hv, hdrifts⟩ := CType.exists_drifts m.type m.extents
    obtain ⟨hattrs, hmem⟩ := Members.haveTypes_defaults_setAttr hnodup hm hv
    refine ⟨_, hattrs, fun w hw => ?_⟩
    rw [← Members.names_of_haveTypes hattrs] at hnodup
    have hget := get_of_mem hnodup hw
    rw [get_of_mem hnodup hmem] at hget
    exact Option.some.inj hget ▸ hdrifts
  · refine ⟨_, ms.defaults_haveTypes, fun w hw => absurd ?_ hx⟩
    have hmem := List.mem_map_of_mem (f := Prod.fst) hw
    rw [Members.names_of_haveTypes ms.defaults_haveTypes, ← Members.map_name_list] at hmem
    exact List.mem_map.1 hmem

end ReflectPytest
