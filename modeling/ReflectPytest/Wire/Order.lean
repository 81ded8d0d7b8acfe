import Mathlib.Data.List.Nodup
import Mathlib.Logic.Relation
import ReflectPytest.Wire.Generated

set_option autoImplicit false

/-! # The order of the generated classes

`generate_bindings` runs `generate_struct` over all payload types with one set of visited names. The
payload types contain one another by value, so what they contain is a graph without cycles; the
module has one class for each node that can be reached, behind the classes its annotations name. -/

namespace ReflectPytest

deriving instance DecidableEq for CType, Members

/-! ## Containment -/

/-- A member of the type holds objects of the class: a struct, a C array of structs (the extents
    belong to the member), or a `std::array` of structs. -/
inductive CType.Holds : CType → String × Members → Prop where
  | struct (name : String) (ms : Members) : Holds (.cls name ms) (name, ms)
  | stdArray (name : String) (ms : Members) (n : Nat) :
      Holds (.stdArray (.cls name ms) [] n) (name, ms)

/-- A member of the class `c` that reflection sees holds objects of the class `d`. -/
def Contains (c d : String × Members) : Prop :=
  ∃ m ∈ c.2.list, m.access = .accessible ∧ m.type.Holds d

/-- The class is one of the types or contained in one, at any depth. -/
def Reachable (types : List CType) (d : String × Members) : Prop :=
  ∃ c : String × Members, CType.cls c.1 c.2 ∈ types ∧ Relation.ReflTransGen Contains c d

theorem CType.holds_iff {t : CType} {d : String × Members} :
    t.Holds d ↔ t.base = .cls d.1 d.2 := by
  constructor
  · rintro (⟨name, ms⟩ | ⟨name, ms, n⟩) <;> rfl
  · obtain ⟨name, ms⟩ := d
    intro h
    cases t with
    | scalar s => exact absurd h (by simp [CType.base])
    | cls name' ms' =>
        obtain ⟨rfl, rfl⟩ := CType.cls.inj h
        exact .struct _ _
    | stdArray elem extents n =>
        by_cases hextents : extents = []
        · subst hextents
          obtain rfl : elem = .cls name ms := h
          exact .stdArray _ _ _
        · exact absurd h (by simp [CType.base, hextents])

/-- The classes of a type that is a class are that class and those below it. -/
theorem CType.mem_classes_iff {t : CType} {d : String × Members} :
    d ∈ t.classes ↔ ∃ c : String × Members, t = .cls c.1 c.2 ∧ (d = c ∨ d ∈ c.2.classes) := by
  cases t with
  | scalar s => simp [CType.classes]
  | stdArray elem extents n => simp [CType.classes]
  | cls name ms =>
      rw [CType.classes, List.mem_append, List.mem_singleton, or_comm]
      constructor
      · exact fun h => ⟨(name, ms), rfl, h⟩
      · rintro ⟨c, hc, h⟩
        rw [CType.cls.injEq] at hc
        obtain ⟨rfl, rfl⟩ := hc
        exact h

/-- The classes below a class are those it contains, and the classes below them. -/
theorem Members.mem_classes_iff : ∀ {ms : Members} {d : String × Members},
    d ∈ ms.classes ↔ ∃ m ∈ ms.list, m.access = .accessible ∧
      ∃ c, m.type.Holds c ∧ (d = c ∨ d ∈ c.2.classes)
  | .nil, _ => by simp [Members.classes, Members.list]
  | .cons _ .hidden _ _ rest, d => by
      rw [Members.classes, rest.mem_classes_iff, Members.list]
      simp
  | .cons _ .accessible t _ rest, d => by
      rw [Members.classes_cons, List.mem_append, rest.mem_classes_iff, CType.mem_classes_iff,
        Members.list]
      simp [CType.holds_iff]

/-- **The classes of a class are those that can be reached from it.** -/
theorem classes_iff_reaches {c d : String × Members} :
    d ∈ (CType.cls c.1 c.2).classes ↔ Relation.ReflTransGen Contains c d := by
  constructor
  · intro h
    -- what contains a class is larger
    induction hsize : sizeOf c.2 using Nat.strong_induction_on generalizing c with
    | _ size ih =>
        subst hsize
        obtain ⟨c', hc', rfl | hd⟩ := CType.mem_classes_iff.1 h
        · rw [CType.cls.injEq] at hc'
          rw [Prod.ext hc'.1 hc'.2]
        · rw [CType.cls.injEq] at hc'
          rw [← Prod.ext hc'.1 hc'.2] at hd
          obtain ⟨m, hm, haccess, c₁, hholds, hd₁⟩ := Members.mem_classes_iff.1 hd
          have hbelow : c₁ ∈ c.2.classes :=
            Members.mem_classes_iff.2 ⟨m, hm, haccess, c₁, hholds, .inl rfl⟩
          have hreach : Relation.ReflTransGen Contains c₁ d :=
            ih _ (c.2.sizeOf_classes hbelow) (CType.mem_classes_iff.2 ⟨c₁, rfl, hd₁⟩) rfl
          exact hreach.head ⟨m, hm, haccess, hholds⟩
  · intro h
    induction h using Relation.ReflTransGen.head_induction_on with
    | refl => exact CType.mem_classes_iff.2 ⟨d, rfl, .inl rfl⟩
    | head hstep _ ih =>
        obtain ⟨m, hm, haccess, hholds⟩ := hstep
        obtain ⟨c', hc', hd⟩ := CType.mem_classes_iff.1 ih
        rw [CType.cls.injEq] at hc'
        rw [← Prod.ext hc'.1 hc'.2] at hd
        exact CType.mem_classes_iff.2
          ⟨_, rfl, .inr (Members.mem_classes_iff.2 ⟨m, hm, haccess, _, hholds, hd⟩)⟩

theorem reachable_iff {types : List CType} {d : String × Members} :
    Reachable types d ↔ d ∈ types.flatMap CType.classes := by
  rw [List.mem_flatMap]
  constructor
  · rintro ⟨c, hc, hreach⟩
    exact ⟨_, hc, classes_iff_reaches.2 hreach⟩
  · rintro ⟨t, ht, hd⟩
    obtain ⟨c, rfl, -⟩ := CType.mem_classes_iff.1 hd
    exact ⟨c, ht, classes_iff_reaches.1 hd⟩

/-! ## Uniqueness -/

mutual

/-- No class is emitted under a name that has been visited before. -/
theorem generateStruct_visited : ∀ (t : CType) {e : Emitted} {n : String}, n ∈ e.visited →
    n ∈ (generateStruct t e).visited ∧
      (n ∈ (generateStruct t e).classes.map PyClass.name → n ∈ e.classes.map PyClass.name)
  | .scalar _, _, _, h => by
      rw [generateStruct]
      exact ⟨h, id⟩
      all_goals simp
  | .stdArray _ _ _, _, _, h => by
      rw [generateStruct]
      exact ⟨h, id⟩
      all_goals simp
  | .cls name ms, e, n, h => by
      rw [generateStruct]
      split
      · exact ⟨h, id⟩
      · next hvisited =>
          have hne : n ≠ name := by
            rintro rfl
            exact hvisited (by simpa using h)
          obtain ⟨hn, hold⟩ := generateNested_visited ms
            (e := { e with visited := name :: e.visited }) (List.mem_cons_of_mem name h)
          refine ⟨hn, fun hmem => hold ?_⟩
          simpa [hne] using hmem
termination_by t => sizeOf t

theorem generateNested_visited : ∀ (ms : Members) {e : Emitted} {n : String}, n ∈ e.visited →
    n ∈ (generateNested ms e).visited ∧
      (n ∈ (generateNested ms e).classes.map PyClass.name → n ∈ e.classes.map PyClass.name)
  | .nil, _, _, h => by
      rw [generateNested]
      exact ⟨h, id⟩
  | .cons _ .hidden _ _ rest, _, _, h => by
      rw [generateNested]
      exact generateNested_visited rest h
  | .cons _ .accessible t _ rest, _, _, h => by
      rw [generateNested_cons]
      obtain ⟨hn, hold⟩ := generateStruct_visited t.base h
      obtain ⟨hn', hold'⟩ := generateNested_visited rest hn
      exact ⟨hn', fun hmem => hold (hold' hmem)⟩
termination_by ms => sizeOf ms
decreasing_by
  all_goals simp
  have hbase := t.sizeOf_base
  omega

end

/-! ## Order -/

/-- Each class comes after every class its annotations name. -/
def PyModule.InOrder (M : PyModule) : Prop :=
  ∀ before c after, M = before ++ c :: after → ∀ f ∈ c.fields, ∀ sub, f.2 = .cls sub →
    sub ∈ before.map PyClass.name

theorem PyModule.InOrder.snoc {M : PyModule} (h : M.InOrder) {c : PyClass}
    (hc : ∀ f ∈ c.fields, ∀ sub, f.2 = .cls sub → sub ∈ M.map PyClass.name) :
    PyModule.InOrder (M ++ [c]) := by
  intro before c' after heq
  rcases after.eq_nil_or_concat with rfl | ⟨after, last, rfl⟩
  · obtain ⟨rfl, hlast⟩ := List.append_inj' heq rfl
    rw [List.cons.injEq] at hlast
    exact hlast.1 ▸ hc
  · rw [List.concat_eq_append, ← List.cons_append, ← List.append_assoc] at heq
    exact h before c' after (List.append_inj' heq rfl).1

/-- The classes emitted so far have different names, all of them visited, and are in order. -/
structure Emitted.Listed (e : Emitted) : Prop where
  nodup : (e.classes.map PyClass.name).Nodup
  visited : ∀ n ∈ e.classes.map PyClass.name, n ∈ e.visited
  inOrder : e.classes.InOrder

section

variable {R : List (String × Members)}

theorem Emitted.Listed.init : Emitted.Listed {} where
  nodup := List.nodup_nil
  visited := by simp
  inOrder := fun before c after h => absurd h (by simp)

theorem Emitted.Listed.enter {e : Emitted} (h : e.Listed) (name : String) :
    Emitted.Listed { e with visited := name :: e.visited } :=
  ⟨h.nodup, fun n hn => List.mem_cons_of_mem _ (h.visited n hn), h.inOrder⟩

theorem Emitted.Listed.emit {e : Emitted} (h : e.Listed) {name : String} {ms : Members}
    (hnew : name ∉ e.classes.map PyClass.name) (hvisited : name ∈ e.visited)
    (hbelow : ∀ d ∈ ms.classes, d.1 ∈ e.classes.map PyClass.name) :
    Emitted.Listed { e with classes := e.classes ++ [generateClass name ms] } where
  nodup := by
    rw [List.map_append, List.nodup_append]
    refine ⟨h.nodup, by simp, ?_⟩
    rintro a ha b hb rfl
    rw [List.map_singleton, List.mem_singleton, generateClass_name] at hb
    exact hnew (hb ▸ ha)
  visited := by
    intro n hn
    rw [List.map_append, List.mem_append] at hn
    rcases hn with hn | hn
    · exact h.visited n hn
    · rw [List.map_singleton, List.mem_singleton, generateClass_name] at hn
      exact hn ▸ hvisited
  inOrder := by
    refine h.inOrder.snoc fun f hf sub hsub => ?_
    rw [generateClass_fields] at hf
    obtain ⟨d, hd, rfl⟩ := ms.mem_classes_of_field hf hsub
    exact hbelow d hd

mutual

theorem generateStruct_listed (hR : Unambiguous R) : ∀ (t : CType) (pending : List String)
    {e : Emitted}, (∀ d ∈ t.classes, d ∈ R) → (∀ d ∈ t.classes, d.1 ∉ pending) →
    e.Inv R pending → e.Listed → (generateStruct t e).Listed
  | .scalar _, _, _, _, _, _, h => by
      rw [generateStruct]
      exact h
      all_goals simp
  | .stdArray _ _ _, _, _, _, _, _, h => by
      rw [generateStruct]
      exact h
      all_goals simp
  | .cls name ms, pending, e, hsub, hnew, hinv, h => by
      rw [generateStruct]
      split
      · exact h
      · next hvisited =>
          have hbelow : ∀ d ∈ ms.classes, d ∈ R := by
            intro d hd
            exact hsub d (by simp [CType.classes, hd])
          have hfresh := fresh_below hR hsub hnew
          have hlisted := generateNested_listed hR ms (name :: pending) hbelow hfresh
            (hinv.enter name) (h.enter name)
          obtain ⟨-, -, hall⟩ := generateNested_spec hR ms (name :: pending) hbelow hfresh
            (hinv.enter name)
          -- the mark keeps the name out of what is emitted below
          obtain ⟨hmark, hold⟩ := generateNested_visited ms
            (e := { e with visited := name :: e.visited }) (n := name) List.mem_cons_self
          refine hlisted.emit (fun hmem => hvisited ?_) hmark hall
          simpa using h.visited name (hold hmem)
termination_by t => sizeOf t

theorem generateNested_listed (hR : Unambiguous R) : ∀ (ms : Members) (pending : List String)
    {e : Emitted}, (∀ d ∈ ms.classes, d ∈ R) → (∀ d ∈ ms.classes, d.1 ∉ pending) →
    e.Inv R pending → e.Listed → (generateNested ms e).Listed
  | .nil, _, _, _, _, _, h => by
      rw [generateNested]
      exact h
  | .cons _ .hidden _ _ rest, pending, _, hsub, hnew, hinv, h => by
      rw [generateNested]
      exact generateNested_listed hR rest pending hsub hnew hinv h
  | .cons _ .accessible t _ rest, pending, _, hsub, hnew, hinv, h => by
      rw [Members.classes_cons] at hsub hnew
      rw [generateNested_cons]
      have hsub' : ∀ d ∈ t.base.classes, d ∈ R := fun d hd => hsub d (List.mem_append_left _ hd)
      have hnew' : ∀ d ∈ t.base.classes, d.1 ∉ pending :=
        fun d hd => hnew d (List.mem_append_left _ hd)
      exact generateNested_listed hR rest pending
        (fun d hd => hsub d (List.mem_append_right _ hd))
        (fun d hd => hnew d (List.mem_append_right _ hd))
        (generateStruct_spec hR t.base pending hsub' hnew' hinv).1
        (generateStruct_listed hR t.base pending hsub' hnew' hinv h)
termination_by ms => sizeOf ms
decreasing_by
  all_goals simp
  have hbase := t.sizeOf_base
  omega

end

end

/-! ## All payloads -/

/-- `generate_struct` over all the types, with one set of visited names. -/
def generateStructs (types : List CType) (e : Emitted) : Emitted :=
  types.foldl (fun e t => generateStruct t e) e

/-- The module emitted for all the types. -/
def moduleOfAll (types : List CType) : PyModule := (generateStructs types {}).classes

theorem generateBindings_eq_moduleOfAll :
    generateBindings = moduleOfAll (Payload.motorSubCmd :: MsgId.all.map MsgId.payload) := by
  rw [generateBindings, moduleOfAll, generateStructs, List.foldl_cons, List.foldl_map]

theorem generateStructs_spec {R : List (String × Members)} (hR : Unambiguous R) :
    ∀ (types : List CType) {e : Emitted}, (∀ d ∈ types.flatMap CType.classes, d ∈ R) →
      e.Inv R [] → e.Listed → (generateStructs types e).Inv R [] ∧
        (generateStructs types e).Listed ∧ e.classes <+: (generateStructs types e).classes ∧
        ∀ d ∈ types.flatMap CType.classes,
          d.1 ∈ (generateStructs types e).classes.map PyClass.name := by
  intro types
  induction types with
  | nil => exact fun _ hinv hlisted => ⟨hinv, hlisted, List.prefix_rfl, by simp⟩
  | cons t types ih =>
      intro e hsub hinv hlisted
      rw [List.flatMap_cons] at hsub ⊢
      have hsub' : ∀ d ∈ t.classes, d ∈ R := fun d hd => hsub d (List.mem_append_left _ hd)
      obtain ⟨hinv', hprefix, hall⟩ := generateStruct_spec hR t [] hsub' (by simp) hinv
      obtain ⟨hinv'', hlisted'', hprefix', hall'⟩ := ih
        (fun d hd => hsub d (List.mem_append_right _ hd)) hinv'
        (generateStruct_listed hR t [] hsub' (by simp) hinv hlisted)
      refine ⟨hinv'', hlisted'', hprefix.trans hprefix', fun d hd => ?_⟩
      rcases List.mem_append.1 hd with hd | hd
      · exact (hprefix'.map PyClass.name).subset (hall d hd)
      · exact hall' d hd

/-- **The emitted module defines each class that can be reached from the types once, and after every
    class its annotations name**, when no two of these classes have one Python name. -/
theorem moduleOfAll_order (types : List CType)
    (h : ∀ c d, Reachable types c → Reachable types d → c.1 = d.1 → c = d) :
    ((moduleOfAll types).map PyClass.name).Nodup ∧
      (∀ c, c ∈ moduleOfAll types ↔ ∃ d, Reachable types d ∧ c = generateClass d.1 d.2) ∧
      ∀ before c after, moduleOfAll types = before ++ c :: after →
        ∀ f ∈ c.fields, ∀ sub, f.2 = .cls sub → sub ∈ before.map PyClass.name := by
  have hR : Unambiguous (types.flatMap CType.classes) := by
    intro c hc d hd
    exact h c d (reachable_iff.2 hc) (reachable_iff.2 hd)
  obtain ⟨hinv, hlisted, -, hall⟩ := generateStructs_spec hR types (fun d hd => hd)
    Emitted.Inv.init Emitted.Listed.init
  refine ⟨hlisted.nodup, fun c => ⟨fun hc => ?_, ?_⟩, hlisted.inOrder⟩
  · obtain ⟨d, hd, hcd, -⟩ := hinv.emitted c hc
    exact ⟨d, reachable_iff.2 hd, hcd⟩
  · rintro ⟨d, hd, rfl⟩
    obtain ⟨c, hc, hname⟩ := List.mem_map.1 (hall d (reachable_iff.1 hd))
    obtain ⟨d', hd', rfl, -⟩ := hinv.emitted c hc
    rw [generateClass_name] at hname
    rwa [← h d' d (reachable_iff.2 hd') hd hname]

/-- The module of the repository. -/
theorem generated_order : (generated.map PyClass.name).Nodup ∧
    ∀ before c after, generated = before ++ c :: after →
      ∀ f ∈ c.fields, ∀ sub, f.2 = .cls sub → sub ∈ before.map PyClass.name := by
  have hnames : ∀ c ∈ (Payload.motorSubCmd :: MsgId.all.map MsgId.payload).flatMap CType.classes,
      ∀ d ∈ (Payload.motorSubCmd :: MsgId.all.map MsgId.payload).flatMap CType.classes,
        c.1 = d.1 → c = d := by
    decide +kernel
  obtain ⟨hnodup, -, horder⟩ := moduleOfAll_order
    (Payload.motorSubCmd :: MsgId.all.map MsgId.payload)
    fun c d hc hd => hnames c (reachable_iff.1 hc) d (reachable_iff.1 hd)
  rw [← generateBindings_eq_moduleOfAll, generateBindings_eq] at hnodup horder
  exact ⟨hnodup, horder⟩

end ReflectPytest
