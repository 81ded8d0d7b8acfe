import Mathlib.Data.List.Nodup
import ReflectPytest.Wire.Memberwise

set_option autoImplicit false

/-! # Which classes are emitted, and when the module loads

`generate_struct` emits a class for the type and for every class below it, nested ones first. The
module can be imported when every name in an annotation is defined and no flush is of padding
alone. -/

namespace ReflectPytest

open PyStruct

/-- A member on its own. -/
structure Member where
  name : String
  access : Access
  type : CType
  extents : List Nat

def Members.list : Members → List Member
  | .nil => []
  | .cons name access t extents rest => ⟨name, access, t, extents⟩ :: rest.list

mutual

/-- The classes emitted for a type, in order. -/
def CType.classes : CType → List (String × Members)
  | .cls name ms => ms.classes ++ [(name, ms)]
  | _ => []

def Members.classes : Members → List (String × Members)
  | .nil => []
  | .cons _ .hidden _ _ rest => rest.classes
  | .cons _ .accessible (.stdArray elem extents _) _ rest =>
      (if extents = [] then elem.classes else []) ++ rest.classes
  | .cons _ .accessible t _ rest => t.classes ++ rest.classes

end

/-- Classes with the same Python name are the same class. -/
def Unambiguous (classes : List (String × Members)) : Prop :=
  ∀ c ∈ classes, ∀ d ∈ classes, c.1 = d.1 → c = d

/-- With different names for all classes. -/
theorem unambiguous_of_nodup {classes : List (String × Members)}
    (h : (classes.map Prod.fst).Nodup) : Unambiguous classes := by
  intro c hc d hd hname
  exact List.inj_on_of_nodup_map h hc hd hname

/-- The module has the class generated for each class of the type. -/
def PyModule.Provides (M : PyModule) (classes : List (String × Members)) : Prop :=
  ∀ c ∈ classes, M.find c.1 = some (generateClass c.1 c.2)

instance (M : PyModule) (classes : List (String × Members)) : Decidable (M.Provides classes) :=
  inferInstanceAs (Decidable (∀ c ∈ classes, M.find c.1 = some (generateClass c.1 c.2)))

/-- The name is that of a builtin, a class or an emitted enumeration. -/
def TypeName.Exists : TypeName → Prop
  | .enum name => name ∈ enumNames
  | .other => False
  | _ => True

instance : (t : TypeName) → Decidable t.Exists
  | .enum name => inferInstanceAs (Decidable (name ∈ enumNames))
  | .other => isFalse not_false
  | .builtin => isTrue trivial
  | .cls _ => isTrue trivial

/-- Every annotation of the class names something that exists. -/
def Members.Annotated (ms : Members) : Prop := ∀ f ∈ ms.fields, f.2.Exists

instance (ms : Members) : Decidable ms.Annotated :=
  inferInstanceAs (Decidable (∀ f ∈ ms.fields, f.2.Exists))

/-- The class and its fields have names that Python allows. -/
def Members.Spelled (name : String) (ms : Members) : Prop :=
  ∀ x ∈ name :: ms.fields.map Prod.fst, x ∉ pythonKeywords

instance (name : String) (ms : Members) : Decidable (ms.Spelled name) :=
  inferInstanceAs (Decidable (∀ x ∈ name :: ms.fields.map Prod.fst, x ∉ pythonKeywords))

/-- No flush in the methods of the class is of padding alone; without accessible members there is no
    flush. -/
def Members.FlushesValues (name : String) (ms : Members) : Prop :=
  ms.fields = [] ∨ ms.padsAlone (CType.cls name ms).size 0 0 false = false

instance (name : String) (ms : Members) : Decidable (ms.FlushesValues name) :=
  inferInstanceAs (Decidable (_ ∨ _))

/-- The classes can be imported. -/
def Loads (classes : List (String × Members)) : Prop :=
  ∀ c ∈ classes, c.2.FlushesValues c.1 ∧ c.2.Annotated ∧ c.2.Spelled c.1

instance (classes : List (String × Members)) : Decidable (Loads classes) :=
  inferInstanceAs (Decidable (∀ c ∈ classes, _ ∧ _))

theorem parses_unpackWire_iff (name : String) (ms : Members) :
    (generateClass name ms).unpackWire.all UnpackStmt.parses = true ↔ ms.FlushesValues name := by
  unfold Members.FlushesValues
  by_cases hne : ms.fields = []
  · simp [generateClass, hne]
  · simp [parses_generateClass name hne, hne]

@[simp] theorem generateClass_name (name : String) (ms : Members) :
    (generateClass name ms).name = name := by
  unfold generateClass
  split <;> rfl

@[simp] theorem generateClass_wireSize (name : String) (ms : Members) :
    (generateClass name ms).wireSize = (CType.cls name ms).size := by
  unfold generateClass
  split <;> rfl

@[simp] theorem generateClass_fields (name : String) (ms : Members) :
    (generateClass name ms).fields = ms.fields := by
  unfold generateClass
  split
  · next h => exact h.symm
  · rfl

theorem parses_generateClass_iff (name : String) (ms : Members) :
    (generateClass name ms).parses = true ↔ ms.FlushesValues name ∧ ms.Spelled name := by
  rw [PyClass.parses, generateClass_name, generateClass_fields, Bool.and_eq_true,
    parses_unpackWire_iff, and_comm]
  simp [Members.Spelled]

/-! ## The classes of a type -/

/-- The type whose class an accessible member needs: the elements of a `std::array`. -/
def CType.base : CType → CType
  | .stdArray elem extents n => if extents = [] then elem else .stdArray elem extents n
  | t => t

theorem CType.sizeOf_base (t : CType) : sizeOf t.base ≤ sizeOf t := by
  unfold CType.base
  split
  · split
    · simp
      omega
    · exact le_rfl
  · exact le_rfl

theorem Members.classes_cons (name : String) (t : CType) (extents : List Nat) (rest : Members) :
    (Members.cons name .accessible t extents rest).classes = t.base.classes ++ rest.classes := by
  cases t with
  | stdArray elem inner n =>
      rw [Members.classes, CType.base]
      split <;> simp [CType.classes]
  | _ => rfl

theorem generateNested_cons (name : String) (t : CType) (extents : List Nat) (rest : Members)
    (e : Emitted) : generateNested (.cons name .accessible t extents rest) e =
      generateNested rest (generateStruct t.base e) := by
  cases t with
  | stdArray elem inner n =>
      rw [generateNested, CType.base]
      split <;> simp [generateStruct]
  | _ => rfl

/-- The class an annotation names is generated for the member. -/
theorem base_of_typeHint {t : CType} {extents : List Nat} {sub : String}
    (h : typeHint t extents = .cls sub) : ∃ ms, t.base = .cls sub ms := by
  cases extents with
  | nil =>
      cases t with
      | scalar s => cases s <;> simp [typeHint] at h
      | cls name ms => exact ⟨ms, by rw [TypeName.cls.inj h]; rfl⟩
      | stdArray elem inner n =>
          rw [typeHint] at h
          split at h
          · exact absurd h (by simp)
          · unfold getPythonTypeName at h
            split at h
            · next name ms _ => exact ⟨ms, by rw [TypeName.cls.inj h]; rfl⟩
            all_goals exact absurd h (by simp)
  | cons n inner =>
      have h : (if t.isByte then TypeName.builtin else getPythonTypeName t []) = .cls sub := by
        cases t with
        | scalar s => cases s <;> exact h
        | _ => exact h
      split at h
      · exact absurd h (by simp)
      · unfold getPythonTypeName at h
        split at h
        · next name ms _ _ _ => exact ⟨ms, by rw [TypeName.cls.inj h]; rfl⟩
        all_goals exact absurd h (by simp)

mutual

/-- A class is larger than the classes below it. -/
theorem CType.sizeOf_classes : ∀ (t : CType) {c : String × Members}, c ∈ t.classes →
    sizeOf c.2 < sizeOf t
  | .cls name ms, c, h => by
      have hms : sizeOf ms < sizeOf (CType.cls name ms) := by simp
      rw [CType.classes, List.mem_append, List.mem_singleton] at h
      rcases h with h | rfl
      · exact (Members.sizeOf_classes ms h).trans hms
      · exact hms
  | .scalar _, _, h => by simp [CType.classes] at h
  | .stdArray _ _ _, _, h => by simp [CType.classes] at h
termination_by t => sizeOf t

theorem Members.sizeOf_classes : ∀ (ms : Members) {c : String × Members}, c ∈ ms.classes →
    sizeOf c.2 < sizeOf ms
  | .nil, _, h => by simp [Members.classes] at h
  | .cons _ .hidden _ _ rest, _, h => by
      have hrest := Members.sizeOf_classes rest h
      simp
      omega
  | .cons _ .accessible t _ rest, _, h => by
      have hbase := t.sizeOf_base
      rw [Members.classes_cons, List.mem_append] at h
      rcases h with h | h
      · have ht := CType.sizeOf_classes t.base h
        simp
        omega
      · have hrest := Members.sizeOf_classes rest h
        simp
        omega
termination_by ms => sizeOf ms
decreasing_by
  all_goals simp
  all_goals omega

end

theorem CType.WellFormed.base {t : CType} (h : t.WellFormed) : t.base.WellFormed := by
  unfold CType.base
  split
  · split
    · exact h.2
    · exact h
  · exact h

mutual

/-- What is below a class of a type is below the type, and well formed with it. -/
theorem CType.class_below : ∀ (t : CType) {c : String × Members}, c ∈ t.classes →
    (CType.cls c.1 c.2).classes ⊆ t.classes ∧ (t.WellFormed → (CType.cls c.1 c.2).WellFormed)
  | .cls name ms, c, h => by
      rw [CType.classes, List.mem_append, List.mem_singleton] at h
      rcases h with h | rfl
      · obtain ⟨hsub, hwf⟩ := Members.class_below ms h
        refine ⟨List.Subset.trans hsub ?_, fun hw => hwf hw.1⟩
        rw [CType.classes]
        exact List.subset_append_left _ _
      · exact ⟨List.Subset.refl _, id⟩
  | .scalar _, _, h => by simp [CType.classes] at h
  | .stdArray _ _ _, _, h => by simp [CType.classes] at h
termination_by t => sizeOf t

theorem Members.class_below : ∀ (ms : Members) {c : String × Members}, c ∈ ms.classes →
    (CType.cls c.1 c.2).classes ⊆ ms.classes ∧ (ms.WellFormed → (CType.cls c.1 c.2).WellFormed)
  | .nil, _, h => by simp [Members.classes] at h
  | .cons _ .hidden _ _ rest, _, h => by
      obtain ⟨hsub, hwf⟩ := Members.class_below rest h
      exact ⟨hsub, fun hw => hwf hw.2.2⟩
  | .cons _ .accessible t _ rest, _, h => by
      rw [Members.classes_cons] at h ⊢
      rcases List.mem_append.1 h with h | h
      · obtain ⟨hsub, hwf⟩ := CType.class_below t.base h
        exact ⟨List.Subset.trans hsub (List.subset_append_left _ _), fun hw => hwf hw.2.1.base⟩
      · obtain ⟨hsub, hwf⟩ := Members.class_below rest h
        exact ⟨List.Subset.trans hsub (List.subset_append_right _ _), fun hw => hwf hw.2.2⟩
termination_by ms => sizeOf ms
decreasing_by
  all_goals simp
  have hbase := t.sizeOf_base
  omega

end

theorem Members.mem_classes_of_field : ∀ {ms : Members} {f : String × TypeName} {sub : String},
    f ∈ ms.fields → f.2 = .cls sub → ∃ c ∈ ms.classes, c.1 = sub
  | .nil, _, _, h, _ => by simp [Members.fields] at h
  | .cons _ .hidden _ _ rest, f, sub, h, hsub => rest.mem_classes_of_field h hsub
  | .cons _ .accessible t extents rest, f, sub, h, hsub => by
      simp only [Members.classes_cons, List.mem_append]
      rcases List.mem_cons.1 h with rfl | h
      · obtain ⟨ms, hbase⟩ := base_of_typeHint hsub
        refine ⟨(sub, ms), Or.inl ?_, rfl⟩
        simp [hbase, CType.classes]
      · obtain ⟨c, hc, rfl⟩ := rest.mem_classes_of_field h hsub
        exact ⟨c, Or.inr hc, rfl⟩

/-! ## The order of the classes -/

namespace PyModule

theorem defines_append (defined : List String) (M N : PyModule) :
    defines defined (M ++ N) =
      (defines defined M && defines ((M.map PyClass.name).reverse ++ defined) N) := by
  induction M generalizing defined with
  | nil => rfl
  | cons c M ih => simp [defines, ih, Bool.and_assoc]

theorem exists_of_isDefined {t : TypeName} {defined : List String}
    (h : t.isDefined defined = true) : t.Exists := by
  cases t with
  | builtin => trivial
  | cls name => trivial
  | enum name => exact List.contains_iff_mem.1 h
  | other => exact absurd h Bool.false_ne_true

/-- An imported class has no annotation without a meaning. -/
theorem annotated_of_defines {M : PyModule} {defined : List String} (h : M.defines defined = true)
    {c : PyClass} (hc : c ∈ M) : ∀ f ∈ c.fields, f.2.Exists := by
  induction M generalizing defined with
  | nil => exact absurd hc (by simp)
  | cons first M ih =>
      rw [defines, Bool.and_eq_true] at h
      rcases List.mem_cons.1 hc with rfl | hc
      · exact fun f hf => exists_of_isDefined (List.all_eq_true.1 h.1 f hf)
      · exact ih h.2 hc

/-- The class found is one of the module. -/
theorem find_eq_some {M : PyModule} {name : String} {c : PyClass} (h : M.find name = some c) :
    c ∈ M ∧ c.name = name :=
  ⟨List.mem_of_find?_eq_some h, by simpa using List.find?_some h⟩

theorem find_isSome {M : PyModule} {name : String} (h : name ∈ M.map PyClass.name) :
    ∃ c, M.find name = some c := by
  obtain ⟨c, hc, rfl⟩ := List.mem_map.1 h
  refine Option.isSome_iff_exists.1 (List.find?_isSome.2 ⟨c, hc, ?_⟩)
  simp

end PyModule

/-! ## The emitted module -/

/-- What holds while classes of `R` are emitted and the classes named in `pending` are being worked
    on. -/
structure Emitted.Inv (R : List (String × Members)) (pending : List String) (e : Emitted) :
    Prop where
  visited : ∀ n ∈ e.visited, n ∈ pending ∨ n ∈ e.classes.map PyClass.name
  emitted : ∀ c ∈ e.classes, ∃ d ∈ R, c = generateClass d.1 d.2 ∧
    ∀ d' ∈ d.2.classes, d'.1 ∈ e.classes.map PyClass.name
  defines : (∀ d ∈ R, d.2.Annotated) → e.classes.defines [] = true

section

variable {R : List (String × Members)}

theorem Emitted.Inv.init : Emitted.Inv R [] {} :=
  ⟨by simp, by simp, fun _ => rfl⟩

/-- The classes below a class come before it. -/
theorem Emitted.Inv.emit {pending : List String} {e : Emitted} {name : String} {ms : Members}
    (h : e.Inv R (name :: pending)) (hR : (name, ms) ∈ R)
    (hbelow : ∀ d ∈ ms.classes, d.1 ∈ e.classes.map PyClass.name) :
    Emitted.Inv R pending { e with classes := e.classes ++ [generateClass name ms] } := by
  refine ⟨?_, ?_, ?_⟩
  · intro n hn
    rw [List.map_append, List.mem_append]
    rcases h.visited n hn with hn | hn
    · rcases List.mem_cons.1 hn with rfl | hn
      · exact Or.inr (Or.inr (by simp))
      · exact Or.inl hn
    · exact Or.inr (Or.inl hn)
  · intro c hc
    rcases List.mem_append.1 hc with hc | hc
    · obtain ⟨d, hd, hcd, hsub⟩ := h.emitted c hc
      exact ⟨d, hd, hcd, fun d' hd' => by simp [List.mem_map.1 (hsub d' hd')]⟩
    · rw [List.mem_singleton] at hc
      exact ⟨(name, ms), hR, hc, fun d' hd' => by simp [List.mem_map.1 (hbelow d' hd')]⟩
  · intro hann
    rw [PyModule.defines_append, h.defines hann]
    simp only [PyModule.defines, generateClass_fields, Bool.true_and, Bool.and_true,
      List.all_eq_true]
    intro f hf
    cases hname : f.2 with
    | builtin => rfl
    | enum e =>
        have hexists := hann (name, ms) hR f hf
        rw [hname] at hexists
        exact List.contains_iff_mem.2 hexists
    | other =>
        have hexists := hann (name, ms) hR f hf
        rw [hname] at hexists
        exact hexists.elim
    | cls sub =>
        obtain ⟨d, hd, rfl⟩ := ms.mem_classes_of_field hf hname
        simpa [TypeName.isDefined] using hbelow d hd

/-- A class is marked as visited before the classes below it are emitted. -/
theorem Emitted.Inv.enter {pending : List String} {e : Emitted} (h : e.Inv R pending)
    (name : String) :
    Emitted.Inv R (name :: pending) { e with visited := name :: e.visited } := by
  refine ⟨fun n hn => ?_, h.emitted, h.defines⟩
  rcases List.mem_cons.1 hn with rfl | hn
  · exact Or.inl List.mem_cons_self
  · exact (h.visited n hn).imp_left (List.mem_cons_of_mem _)

/-- No class below a class has its name. -/
theorem fresh_below (hR : Unambiguous R) {name : String} {ms : Members} {pending : List String}
    (hsub : ∀ d ∈ (CType.cls name ms).classes, d ∈ R)
    (hnew : ∀ d ∈ (CType.cls name ms).classes, d.1 ∉ pending) :
    ∀ d ∈ ms.classes, d.1 ∉ name :: pending := by
  intro d hd hmem
  have hhere : (name, ms) ∈ (CType.cls name ms).classes := by simp [CType.classes]
  have hbelow : d ∈ (CType.cls name ms).classes := by simp [CType.classes, hd]
  rcases List.mem_cons.1 hmem with hname | hmem
  · have hsame : d = (name, ms) := hR d (hsub d hbelow) _ (hsub _ hhere) hname
    have hlt := ms.sizeOf_classes hd
    rw [hsame] at hlt
    exact absurd hlt (lt_irrefl _)
  · exact hnew d hbelow hmem

mutual

/-- **Every class below the type is emitted, and nothing but the classes of `R`.** -/
theorem generateStruct_spec (hR : Unambiguous R) : ∀ (t : CType) (pending : List String)
    {e : Emitted}, (∀ d ∈ t.classes, d ∈ R) → (∀ d ∈ t.classes, d.1 ∉ pending) →
    e.Inv R pending → (generateStruct t e).Inv R pending ∧
      e.classes <+: (generateStruct t e).classes ∧
      ∀ d ∈ t.classes, d.1 ∈ (generateStruct t e).classes.map PyClass.name
  | .scalar _, _, _, _, _, h => by
      rw [generateStruct]
      exact ⟨h, List.prefix_rfl, by simp [CType.classes]⟩
      all_goals simp
  | .stdArray _ _ _, _, _, _, _, h => by
      rw [generateStruct]
      exact ⟨h, List.prefix_rfl, by simp [CType.classes]⟩
      all_goals simp
  | .cls name ms, pending, e, hsub, hnew, h => by
      have hhere : (name, ms) ∈ (CType.cls name ms).classes := by simp [CType.classes]
      have hbelow : ∀ d ∈ ms.classes, d ∈ (CType.cls name ms).classes := by
        intro d hd
        simp [CType.classes, hd]
      rw [generateStruct]
      split
      · next hvisited =>
          -- visited before, and not on the way here: emitted, with everything below
          have hmem := (h.visited name (by simpa using hvisited)).resolve_left (hnew _ hhere)
          refine ⟨h, List.prefix_rfl, fun d hd => ?_⟩
          obtain ⟨c, hc, hcname⟩ := List.mem_map.1 hmem
          obtain ⟨d', hd', rfl, hsub'⟩ := h.emitted c hc
          have hsame : d' = (name, ms) :=
            hR d' hd' _ (hsub _ hhere) ((generateClass_name _ _).symm.trans hcname)
          subst hsame
          rw [CType.classes, List.mem_append, List.mem_singleton] at hd
          rcases hd with hd | rfl
          · exact hsub' d hd
          · exact hmem
      · obtain ⟨hinv, hprefix, hall⟩ := generateNested_spec hR ms (name :: pending)
          (fun d hd => hsub d (hbelow d hd)) (fresh_below hR hsub hnew) (h.enter name)
        refine ⟨hinv.emit (hsub _ hhere) hall, hprefix.trans (List.prefix_append _ _), ?_⟩
        intro d hd
        rw [CType.classes, List.mem_append, List.mem_singleton] at hd
        rw [List.map_append, List.mem_append]
        rcases hd with hd | rfl
        · exact Or.inl (hall d hd)
        · exact Or.inr (by simp)
termination_by t => sizeOf t

theorem generateNested_spec (hR : Unambiguous R) : ∀ (ms : Members) (pending : List String)
    {e : Emitted}, (∀ d ∈ ms.classes, d ∈ R) → (∀ d ∈ ms.classes, d.1 ∉ pending) →
    e.Inv R pending → (generateNested ms e).Inv R pending ∧
      e.classes <+: (generateNested ms e).classes ∧
      ∀ d ∈ ms.classes, d.1 ∈ (generateNested ms e).classes.map PyClass.name
  | .nil, _, _, _, _, h => by
      rw [generateNested]
      exact ⟨h, List.prefix_rfl, by simp [Members.classes]⟩
  | .cons _ .hidden _ _ rest, pending, e, hsub, hnew, h => by
      rw [generateNested, Members.classes]
      exact generateNested_spec hR rest pending hsub hnew h
  | .cons _ .accessible t _ rest, pending, e, hsub, hnew, h => by
      rw [Members.classes_cons] at hsub hnew ⊢
      rw [generateNested_cons]
      obtain ⟨hinv, hprefix, hall⟩ := generateStruct_spec hR t.base pending
        (fun d hd => hsub d (List.mem_append_left _ hd))
        (fun d hd => hnew d (List.mem_append_left _ hd)) h
      obtain ⟨hinv', hprefix', hall'⟩ := generateNested_spec hR rest pending
        (fun d hd => hsub d (List.mem_append_right _ hd))
        (fun d hd => hnew d (List.mem_append_right _ hd)) hinv
      refine ⟨hinv', hprefix.trans hprefix', fun d hd => ?_⟩
      rcases List.mem_append.1 hd with hd | hd
      · exact (hprefix'.map PyClass.name).subset (hall d hd)
      · exact hall' d hd
termination_by ms => sizeOf ms
decreasing_by
  all_goals simp
  have hbase := t.sizeOf_base
  omega

end

end

section

variable {t : CType}

/-- The emitted module has every class of the type. -/
theorem provides_moduleOf (h : Unambiguous t.classes) : (moduleOf t).Provides t.classes := by
  obtain ⟨hinv, -, hall⟩ := generateStruct_spec h t [] (fun d hd => hd) (by simp) Emitted.Inv.init
  intro d hd
  obtain ⟨c, hc⟩ := PyModule.find_isSome (hall d hd)
  obtain ⟨hmem, hname⟩ := PyModule.find_eq_some hc
  obtain ⟨d', hd', rfl, -⟩ := hinv.emitted c hmem
  rw [h d' hd' d hd ((generateClass_name _ _).symm.trans hname)] at hc
  exact hc

/-- **The module can be imported when every class of the type can.** -/
theorem executable_moduleOf (h : Unambiguous t.classes) :
    (moduleOf t).Executable ↔ Loads t.classes := by
  obtain ⟨hinv, -, -⟩ := generateStruct_spec h t [] (fun d hd => hd) (by simp) Emitted.Inv.init
  constructor
  · rintro ⟨hparses, hdefines⟩ d hd
    obtain ⟨hmem, -⟩ := PyModule.find_eq_some (provides_moduleOf h d hd)
    obtain ⟨hflush, hspelled⟩ := (parses_generateClass_iff d.1 d.2).1
      (List.all_eq_true.1 hparses _ hmem)
    have hann := PyModule.annotated_of_defines hdefines hmem
    rw [generateClass_fields] at hann
    exact ⟨hflush, hann, hspelled⟩
  · intro hloads
    refine ⟨List.all_eq_true.2 fun c hc => ?_, hinv.defines fun d hd => (hloads d hd).2.1⟩
    obtain ⟨d, hd, rfl, -⟩ := hinv.emitted c hc
    exact (parses_generateClass_iff d.1 d.2).2 ⟨(hloads d hd).1, (hloads d hd).2.2⟩

end

end ReflectPytest
