import ReflectPytest.Wire.Statements

set_option autoImplicit false

/-! # When no name is shadowed

If every name in `unpack_wire` means what the generator means by it, the local variables hold the
decoded members, and the method does what its statements say. -/

namespace ReflectPytest

open PyStruct PyModule

/-- `unpack_wire` of byte strings. -/
def onBytes (call : String → PyVal → Option PyVal) (name : String) (bs : List UInt8) :
    Option PyVal := call name (.bytes bs)

theorem rel_bind {α β γ δ : Type} {R : α → β → Prop} {S : γ → δ → Prop} {a : Option α}
    {b : Option β} {g : α → Option γ} {h : β → Option δ} (hab : Option.Rel R a b)
    (hgh : ∀ x y, R x y → Option.Rel S (g x) (h y)) : Option.Rel S (a.bind g) (b.bind h) := by
  cases hab with
  | none => exact .none
  | some hxy => exact hgh _ _ hxy

theorem rel_imp {α β : Type} {R S : α → β → Prop} {a : Option α} {b : Option β}
    (hab : Option.Rel R a b) (h : ∀ x y, R x y → S x y) : Option.Rel S a b := by
  cases hab with
  | none => exact .none
  | some hxy => exact .some (h _ _ hxy)

theorem rel_map_right {α β γ : Type} {R : α → β → Prop} {S : α → γ → Prop} {a : Option α}
    {b : Option β} {g : β → γ} (hab : Option.Rel R a b) (hg : ∀ x y, R x y → S x (g y)) :
    Option.Rel S a (b.map g) := by
  cases hab with
  | none => exact .none
  | some hxy => exact .some (hg _ _ hxy)

/-! ## Single statements -/

theorem UnpackStmt.data_mem_uses (s : UnpackStmt) : "data" ∈ s.uses := by
  cases s <;> simp [uses]

theorem UnpackStmt.offset_mem_uses (s : UnpackStmt) : "offset" ∈ s.uses := by
  cases s <;> simp [uses]

theorem get_cons (x y : String) (v : PyVal) (attrs : List (String × PyVal)) :
    get ((y, v) :: attrs) x = if x = y then some v else get attrs x := by
  by_cases h : x = y
  · subst h
    simp [PyModule.get]
  · rw [if_neg h, PyModule.get, List.lookup_cons, beq_eq_false_iff_ne.2 h]
    rfl

theorem names_of_assign {targets : List String} {vals : List PyVal} {new : List (String × PyVal)}
    (h : assign targets vals = some new) : new.map Prod.fst = targets := by
  unfold assign at h
  split at h
  · exact absurd h (by simp)
  · obtain ⟨v, -, rfl⟩ := Option.map_eq_some_iff.1 h
    rfl
  · split at h
    · next hlen =>
        obtain rfl := Option.some.inj h
        rw [List.map_fst_zip hlen.ge]
    · exact absurd h (by simp)

section

variable {M : PyModule} {locals : List String} {call : String → PyVal → Option PyVal}
  {data : List UInt8} {f : Frame} {offset : Nat}

theorem isPython_iff {x : String} :
    M.isPython locals x = true ↔ x ∉ locals ∧ M.find x = none := by
  simp [isPython]

theorem resolve_of_notMem {x : String} (h : x ∉ locals) :
    M.resolve locals f x = (M.find x).map fun c => .cls c.name := by
  rw [resolve, if_neg (by simpa using h)]

theorem Frame.advance_int {n : Int} (h : f.val "offset" = some (.int offset)) :
    f.advance (.int n) = some (f.set "offset" (.int (offset + n))) := by
  rw [Frame.advance, h]
  rfl

/-- An item is decoded by its class, from the bytes at the offset. -/
theorem decodeItem_eq {subType : TypeName}
    (hglobal : ∀ name, subType = .cls name → name ∉ locals)
    (hdata : f.val "data" = some (.bytes data)) (hoffset : f.val "offset" = some (.int offset)) :
    M.decodeItem locals call subType f =
      (M.unpackNested (onBytes call) data subType offset).map fun r =>
        (r.1, f.set "sub_size" (.int (r.2 - offset))) := by
  cases subType with
  | cls name =>
      have hname := hglobal name rfl
      cases hfind : M.find name with
      | none =>
          simp [decodeItem, resolveType, resolve_of_notMem hname, hfind, unpackNested, wireSize]
      | some c =>
          obtain rfl : c.name = name := (find_eq_some hfind).2
          have hslice : (PyVal.bytes data).slice? (.int offset) (.int (offset + c.wireSize)) =
              some (.bytes (slice data offset c.wireSize)) :=
            PyVal.slice?_bytes data offset c.wireSize
          simp only [decodeItem, resolveType, resolve_of_notMem hname, hfind, Option.map_some,
            Option.bind_eq_bind, Option.bind_some, wireSizeOf, unpackWireOf, unpackNested, wireSize,
            onBytes]
          simp only [Frame.val_set, String.reduceEq, if_false, hdata, hoffset, Option.bind_some,
            PyVal.add?_int, hslice]
          cases call c.name (.bytes (slice data offset c.wireSize)) <;> simp
  | _ => rfl

/-- One round of a loop. -/
theorem decodeItems_succ {field : String} {subType : TypeName}
    (hglobal : ∀ name, subType = .cls name → name ∉ locals)
    (hfield : field ∉ ["_", "sub_size", "item", "data", "offset"]) {acc : List PyVal}
    (hdata : f.val "data" = some (.bytes data)) (hoffset : f.val "offset" = some (.int offset))
    (hacc : f.val field = some (.list acc)) (n i : Nat) :
    M.decodeItems locals call field subType (n + 1) i f =
      (M.unpackNested (onBytes call) data subType offset).bind fun r =>
        M.decodeItems locals call field subType n (i + 1)
          (((((f.set "_" (.int i)).set "sub_size" (.int (r.2 - offset))).set "item" r.1).set field
            (.list (acc ++ [r.1]))).set "offset" (.int r.2)) := by
  simp only [List.mem_cons, List.not_mem_nil, or_false, not_or] at hfield
  obtain ⟨h₁, h₂, h₃, h₄, h₅⟩ := hfield
  have hd : (f.set "_" (.int i)).val "data" = some (.bytes data) := by simp [Frame.val_set, hdata]
  have ho : (f.set "_" (.int i)).val "offset" = some (.int offset) := by
    simp [Frame.val_set, hoffset]
  rw [decodeItems, decodeItem_eq hglobal hd ho]
  cases M.unpackNested (onBytes call) data subType offset with
  | none => rfl
  | some r =>
      have hnext : (offset : Int) + (r.2 - offset) = r.2 := by ring
      simp [Frame.append, Frame.advance, Frame.val_set, h₁, h₂, h₃, Ne.symm h₂, Ne.symm h₅,
        hacc, hoffset, hnext]

/-- A loop appends the items it decodes. -/
theorem decodeItems_rel {field : String} {subType : TypeName}
    (hglobal : ∀ name, subType = .cls name → name ∉ locals)
    (hfield : field ∉ ["_", "sub_size", "item", "data", "offset"]) :
    ∀ (n i : Nat) (f : Frame) (offset : Nat) (acc : List PyVal),
    f.val "data" = some (.bytes data) → f.val "offset" = some (.int offset) →
    f.val field = some (.list acc) →
    Option.Rel (fun g r => g.val "data" = some (.bytes data) ∧ g.val "offset" = some (.int r.2) ∧
        g.val field = some (.list (acc ++ r.1)) ∧
        ∀ x, x ∉ ["_", "sub_size", "item", "data", "offset"] → x ≠ field → g x = f x)
      (M.decodeItems locals call field subType n i f)
      (M.unpackItems (onBytes call) data subType n offset)
  | 0, _, f, offset, acc, hdata, hoffset, hacc => by
      refine .some ⟨hdata, hoffset, ?_, fun _ _ _ => rfl⟩
      rw [hacc, List.append_nil]
  | n + 1, i, f, offset, acc, hdata, hoffset, hacc => by
      rw [decodeItems_succ hglobal hfield hdata hoffset hacc, unpackItems]
      cases M.unpackNested (onBytes call) data subType offset with
      | none => exact .none
      | some r =>
          have hnames := hfield
          simp only [List.mem_cons, List.not_mem_nil, or_false, not_or] at hnames
          obtain ⟨h₁, h₂, h₃, h₄, h₅⟩ := hnames
          have hrest := decodeItems_rel hglobal hfield n (i + 1)
            (((((f.set "_" (.int i)).set "sub_size" (.int (r.2 - offset))).set "item" r.1).set
              field (.list (acc ++ [r.1]))).set "offset" (.int r.2)) r.2 (acc ++ [r.1])
            (by simp [Frame.val_set, Ne.symm h₄, hdata]) (Frame.val_set_self ..)
            (by simp [Frame.val_set, h₅])
          refine rel_map_right hrest ?_
          rintro g ⟨items, next⟩ ⟨hd, ho, ha, hg⟩
          refine ⟨hd, ho, by rw [ha, List.append_assoc]; rfl, fun x hx hne => ?_⟩
          rw [hg x hx hne]
          simp only [List.mem_cons, List.not_mem_nil, or_false, not_or] at hx
          simp [Frame.set_apply, hx, hne]

/-! ## Runs -/

/-- The frame of a run against the variables of the statements' own meaning, when the members
    `done` are decoded and the statements `rest` are left. -/
structure Agrees (name : String) (data : List UInt8) (rest : List UnpackStmt)
    (done : List String) (f : Frame) (l : Locals) : Prop where
  cls : f "cls" = some (.cls name)
  data : rest ≠ [] → f.val "data" = some (.bytes data)
  offset : rest ≠ [] → f.val "offset" = some (.int l.offset)
  fields : ∀ x ∈ done, f.val x = get l.fields x

/-- The members of `done` and of the statement are not in anything's way. -/
structure Apart (locals : List String) (done : List String) (s : UnpackStmt)
    (rest : List UnpackStmt) : Prop where
  globals : ∀ x ∈ s.globals, x ∉ locals
  done : ∀ x ∈ done, x ∉ s.uses
  cls : "cls" ∉ s.targets
  after : ∀ x ∈ s.targets, x ∉ s.usesAfter
  later : ∀ x ∈ s.targets, ∀ s' ∈ rest, x ∉ s'.uses

theorem Apart.of_rest {done : List String} {s : UnpackStmt} {rest : List UnpackStmt}
    (h : Apart locals done s rest) (hrest : rest ≠ []) :
    "data" ∉ s.targets ∧ "offset" ∉ s.targets := by
  obtain ⟨s', hs'⟩ := List.exists_mem_of_ne_nil rest hrest
  exact ⟨fun hx => h.later _ hx s' hs' s'.data_mem_uses,
    fun hx => h.later _ hx s' hs' s'.offset_mem_uses⟩

variable {cname : String} {done : List String} {rest : List UnpackStmt} {l : Locals}

/-- A format. -/
theorem unpackFrom_rel {targets : List String} {fmt : List Item}
    (hstruct : M.find "struct" = none)
    (h : Apart locals done (.unpackFrom targets fmt) rest)
    (hf : Agrees cname data (.unpackFrom targets fmt :: rest) done f l) :
    Option.Rel (Agrees cname data rest (targets ++ done))
      (M.execStmt locals call f (.unpackFrom targets fmt))
      (M.runUnpackStmt (onBytes call) data l (.unpackFrom targets fmt)) := by
  have hpython : M.isPython locals "struct" = true :=
    isPython_iff.2 ⟨h.globals _ (by simp [UnpackStmt.globals]), hstruct⟩
  have hoffset : "offset" ∉ targets := fun hx => h.after _ hx (by simp [UnpackStmt.usesAfter])
  rw [execStmt, if_pos hpython, runUnpackStmt, hf.data (by simp), hf.offset (by simp)]
  simp only [Option.bind_eq_bind, Option.bind_some, unpackFrom?_bytes]
  cases unpackFrom fmt data l.offset with
  | none => exact .none
  | some vals =>
      rw [Option.bind_some, Option.bind_some]
      cases hassign : assign targets vals with
      | none => exact .none
      | some new =>
          have hnames := names_of_assign hassign
          have hoff : (f.setAll new).val "offset" = some (.int l.offset) :=
            (Frame.val_congr (f.setAll_of_notMem (hnames ▸ hoffset))).trans (hf.offset (by simp))
          rw [Option.bind_some, Frame.advance_int hoff]
          refine .some ⟨?_, fun hrest => ?_, fun _ => Frame.val_set_self .., ?_⟩
          · rw [Frame.set_of_ne _ (by decide), Frame.setAll_of_notMem _ (hnames ▸ h.cls), hf.cls]
          · rw [Frame.val_set, if_neg (by decide), Frame.val_congr (Frame.setAll_of_notMem _
              (hnames ▸ (h.of_rest hrest).1)), hf.data (by simp)]
          · intro x hx
            have hne : x ≠ "offset" := by
              rintro rfl
              rcases List.mem_append.1 hx with hx | hx
              · exact hoffset hx
              · exact h.done _ hx (by simp [UnpackStmt.uses])
            rw [Frame.val_set, if_neg hne]
            have hget : get (new.reverse ++ l.fields) x = (new.reverse.lookup x).or
                (get l.fields x) := List.lookup_append
            rw [hget]
            cases hnew : new.reverse.lookup x with
            | some v => rw [Frame.val_eq_some.2 (f.setAll_of_lookup hnew), Option.some_or]
            | none =>
                have hx' : x ∉ new.map Prod.fst := by
                  intro hmem
                  obtain ⟨a, ha, rfl⟩ := List.mem_map.1 hmem
                  have hother := List.lookup_eq_none_iff.1 hnew a (List.mem_reverse.2 ha)
                  simp at hother
                rw [Option.none_or, Frame.val_congr (f.setAll_of_notMem hx')]
                refine hf.fields x ((List.mem_append.1 hx).resolve_left ?_)
                rwa [← hnames]

/-- A nested object. -/
theorem nested_rel {field : String} {subType : TypeName}
    (h : Apart locals done (.nested field subType) rest)
    (hf : Agrees cname data (.nested field subType :: rest) done f l) :
    Option.Rel (Agrees cname data rest ([field] ++ done))
      (M.execStmt locals call f (.nested field subType))
      (M.runUnpackStmt (onBytes call) data l (.nested field subType)) := by
  have hglobal : ∀ name, subType = .cls name → name ∉ locals := by
    rintro name rfl
    exact h.globals _ (by simp [UnpackStmt.globals])
  have hafter := h.after field (by simp [UnpackStmt.targets])
  simp only [UnpackStmt.usesAfter, List.mem_cons, List.not_mem_nil, or_false, not_or] at hafter
  obtain ⟨h₁, h₂⟩ := hafter
  have hcls : field ≠ "cls" := fun heq => h.cls (by simp [UnpackStmt.targets, heq])
  rw [execStmt, runUnpackStmt, decodeItem_eq hglobal (hf.data (by simp)) (hf.offset (by simp))]
  cases M.unpackNested (onBytes call) data subType l.offset with
  | none => exact .none
  | some r =>
      have hnext : (l.offset : Int) + (r.2 - l.offset) = r.2 := by ring
      have hstep : ((f.set "sub_size" (.int (r.2 - l.offset))).set field r.1).advance
          (.int (r.2 - l.offset)) = some (((f.set "sub_size" (.int (r.2 - l.offset))).set field
            r.1).set "offset" (.int r.2)) := by
        simp [Frame.advance, Frame.val_set, Ne.symm h₂, hf.offset, hnext]
      have hsize : ((f.set "sub_size" (.int (r.2 - l.offset))).set field r.1).val "sub_size" =
          some (.int (r.2 - l.offset)) := by
        simp [Frame.val_set, Ne.symm h₁]
      simp only [Option.map_some, Option.bind_eq_bind, Option.bind_some, hsize, hstep]
      refine .some ⟨?_, fun hrest => ?_, fun _ => Frame.val_set_self .., ?_⟩
      · simp [Frame.set_apply, Ne.symm hcls, hf.cls]
      · have hdata : field ≠ "data" := fun heq =>
          (h.of_rest hrest).1 (by simp [UnpackStmt.targets, heq])
        simp [Frame.val_set, Ne.symm hdata, hf.data]
      · intro x hx
        by_cases hfield : x = field
        · subst hfield
          simp [Frame.val_set, h₂, get_cons]
        · have hx' : x ∈ done := by simpa [hfield] using hx
          have huses := h.done x hx'
          simp only [UnpackStmt.uses, List.mem_cons, List.not_mem_nil, or_false, not_or] at huses
          rw [get_cons, if_neg hfield]
          simpa [Frame.val_set, hfield, huses] using hf.fields x hx'

/-- A loop. -/
theorem forRange_rel {field : String} {n : Nat} {subType : TypeName}
    (hrange : M.find "range" = none) (h : Apart locals done (.forRange field n subType) rest)
    (hf : Agrees cname data (.forRange field n subType :: rest) done f l) :
    Option.Rel (Agrees cname data rest ([field] ++ done))
      (M.execStmt locals call f (.forRange field n subType))
      (M.runUnpackStmt (onBytes call) data l (.forRange field n subType)) := by
  have hpython : M.isPython locals "range" = true := by
    refine isPython_iff.2 ⟨h.globals _ ?_, hrange⟩
    cases subType <;> simp [UnpackStmt.globals]
  have hglobal : ∀ name, subType = .cls name → name ∉ locals := by
    rintro name rfl
    exact h.globals _ (by simp [UnpackStmt.globals])
  have hafter := h.after field (by simp [UnpackStmt.targets])
  have hnames := hafter
  simp only [UnpackStmt.usesAfter, List.mem_cons, List.not_mem_nil, or_false, not_or] at hnames
  obtain ⟨h₁, h₂, h₃, h₄, h₅⟩ := hnames
  have hcls : field ≠ "cls" := fun heq => h.cls (by simp [UnpackStmt.targets, heq])
  have hdata : (f.set field (.list [])).val "data" = some (.bytes data) := by
    simp [Frame.val_set, Ne.symm h₄, hf.data]
  have hoffset : (f.set field (.list [])).val "offset" = some (.int l.offset) := by
    simp [Frame.val_set, Ne.symm h₅, hf.offset]
  rw [execStmt, if_pos hpython, runUnpackStmt]
  refine rel_map_right (decodeItems_rel hglobal hafter n 0 (f.set field (.list [])) l.offset []
    hdata hoffset (Frame.val_set_self ..)) ?_
  rintro g ⟨items, next⟩ ⟨hd, ho, hitems, hg⟩
  refine ⟨?_, fun _ => hd, fun _ => ho, ?_⟩
  · rw [hg "cls" (by decide) (Ne.symm hcls), Frame.set_of_ne _ (Ne.symm hcls), hf.cls]
  · intro x hx
    by_cases hfield : x = field
    · subst hfield
      rw [hitems, get_cons, if_pos rfl, List.nil_append]
    · have hx' : x ∈ done := by simpa [hfield] using hx
      rw [get_cons, if_neg hfield,
        Frame.val_congr (hg x (h.done x hx') hfield), Frame.val_set, if_neg hfield]
      exact hf.fields x hx'

/-- A statement does what it means. -/
theorem execStmt_rel {s : UnpackStmt} (hstruct : M.find "struct" = none)
    (hrange : M.find "range" = none) (h : Apart locals done s rest)
    (hf : Agrees cname data (s :: rest) done f l) :
    Option.Rel (Agrees cname data rest (s.targets ++ done)) (M.execStmt locals call f s)
      (M.runUnpackStmt (onBytes call) data l s) := by
  cases s with
  | unpackFrom targets fmt => exact unpackFrom_rel hstruct h hf
  | forRange field n subType => exact forRange_rel hrange h hf
  | nested field subType => exact nested_rel h hf

/-- **A run of all statements does**, if no name is shadowed and no member is overwritten. -/
theorem execStmts_rel (hstruct : M.find "struct" = none) (hrange : M.find "range" = none) :
    ∀ (stmts : List UnpackStmt) {done : List String} {f : Frame} {l : Locals},
    (∀ s ∈ stmts, ∀ x ∈ s.globals, x ∉ locals) → Unclobbered stmts →
    (∀ x ∈ done, ∀ s ∈ stmts, x ∉ s.uses) → Agrees cname data stmts done f l →
    Option.Rel (Agrees cname data [] (stmts.flatMap UnpackStmt.targets ++ done))
      (M.execStmts locals call stmts f) (M.runUnpack (onBytes call) data stmts l)
  | [], _, _, _, _, _, _, hf => .some hf
  | s :: rest, done, f, l, hglobals, hun, hdone, hf => by
      have hapart : Apart locals done s rest :=
        ⟨hglobals s List.mem_cons_self, fun x hx => hdone x hx s List.mem_cons_self,
          fun hx => (hun.1 _ hx).1 rfl, fun x hx => (hun.1 x hx).2.1, fun x hx => (hun.1 x hx).2.2⟩
      refine rel_bind (execStmt_rel hstruct hrange hapart hf) fun f' l' hf' => ?_
      have hdone' : ∀ x ∈ s.targets ++ done, ∀ s' ∈ rest, x ∉ s'.uses := by
        intro x hx s' hs'
        rcases List.mem_append.1 hx with hx | hx
        · exact hapart.later x hx s' hs'
        · exact hdone x hx s' (List.mem_cons_of_mem _ hs')
      refine rel_imp (execStmts_rel hstruct hrange rest
        (fun s' hs' => hglobals s' (List.mem_cons_of_mem _ hs')) hun.2 hdone' hf') fun _ _ h => ?_
      refine ⟨h.cls, h.data, h.offset, fun x hx => h.fields x ?_⟩
      rw [List.flatMap_cons] at hx
      simp only [List.mem_append] at hx ⊢
      tauto

theorem mapM_congr {α β : Type} {g h : α → Option β} {xs : List α} (heq : ∀ x ∈ xs, g x = h x) :
    xs.mapM g = xs.mapM h := by
  induction xs with
  | nil => rfl
  | cons x xs ih =>
      rw [List.mapM_cons, List.mapM_cons, heq x List.mem_cons_self,
        ih fun y hy => heq y (List.mem_cons_of_mem _ hy)]

theorem agrees_initial (name : String) (data : List UInt8) (stmts : List UnpackStmt) :
    Agrees name data stmts [] (.initial name (.bytes data)) ⟨[], 0⟩ :=
  ⟨rfl, fun _ => rfl, fun _ => rfl, by simp⟩

theorem Agrees.construct {c : PyClass} (h : Agrees cname data [] done f l)
    (hfields : ∀ a ∈ c.fields, a.1 ∈ done) : f.construct c = PyModule.construct c l := by
  rw [Frame.construct, h.cls, PyModule.construct]
  refine congrArg (Option.map (PyVal.obj c.name)) (mapM_congr fun a ha => ?_)
  rw [h.fields a.1 (hfields a ha)]

end

/-! ## Classes -/

section

variable {M : PyModule} {name : String} {ms : Members}

/-- `unpack_wire` of an unshadowed class does what its statements mean. -/
theorem unpackWireScoped_succ (hstruct : M.find "struct" = none) (hrange : M.find "range" = none)
    (hfound : M.find name = some (generateClass name ms)) (hms : ms.Visible)
    (hdecoder : Decoder ms (generateClass name ms).unpackWire)
    (hun : (generateClass name ms).Unshadowed) (k : Nat) (bs : List UInt8) :
    M.unpackWireScoped (k + 1) name (.bytes bs) =
      (M.runUnpack (onBytes (M.unpackWireScoped k)) bs (generateClass name ms).unpackWire
        ⟨[], 0⟩).bind (PyModule.construct (generateClass name ms)) := by
  have hrun : Option.Rel _ (M.execStmts (localNames (generateClass name ms).unpackWire)
      (M.unpackWireScoped k) (generateClass name ms).unpackWire (.initial name (.bytes bs)))
      (M.runUnpack (onBytes (M.unpackWireScoped k)) bs (generateClass name ms).unpackWire
        ⟨[], 0⟩) :=
    execStmts_rel hstruct hrange _ hun.globals hun.locals (by simp) (agrees_initial name bs _)
  have hfields : ∀ a ∈ (generateClass name ms).fields,
      a.1 ∈ (generateClass name ms).unpackWire.flatMap UnpackStmt.targets ++ [] := by
    intro a ha
    rw [generateClass_fields] at ha
    rw [List.append_nil, hdecoder.targets, ← Members.fields_names hms]
    exact List.mem_map_of_mem ha
  rw [unpackWireScoped, hfound, Option.bind_some]
  generalize M.execStmts (localNames (generateClass name ms).unpackWire) (M.unpackWireScoped k)
    (generateClass name ms).unpackWire (.initial name (.bytes bs)) = f at hrun ⊢
  generalize M.runUnpack (onBytes (M.unpackWireScoped k)) bs (generateClass name ms).unpackWire
    ⟨[], 0⟩ = l at hrun ⊢
  cases hrun with
  | none => rfl
  | some h => exact h.construct hfields

/-- **The codec under Python's scoping rules**, when no name is shadowed in any class. -/
theorem calls_of_unshadowed (hstruct : M.find "struct" = none) (hrange : M.find "range" = none) :
    ∀ (k : Nat) {c : String × Members}, M.Provides (CType.cls c.1 c.2).classes →
    (∀ d ∈ (CType.cls c.1 c.2).classes, d.2.Supported ∧ d.2.FlushesValues d.1 ∧
      (generateClass d.1 d.2).Unshadowed) →
    (CType.cls c.1 c.2).WellFormed → (CType.cls c.1 c.2).depth ≤ k →
    Calls M (M.packWireScoped k) (onBytes (M.unpackWireScoped k)) c
  | 0, _, _, _, _, hdepth => by simp [CType.depth] at hdepth
  | k + 1, (name, ms), hprovides, hclasses, hw, hdepth => by
      have hhere := CType.mem_classes name ms
      have hfound := hprovides _ hhere
      obtain ⟨hms, hflush, hun⟩ := hclasses _ hhere
      have hcalls : ∀ m ∈ ms.list, ∀ c, m.type.object = some c →
          Calls M (M.packWireScoped k) (onBytes (M.unpackWireScoped k)) c := by
        intro m hm c hc
        obtain ⟨-, hcls, hlt, hwf⟩ := CType.object_subset hm (hms.visible m hm) hc
        exact calls_of_unshadowed hstruct hrange k (fun d hd => hprovides d (hcls hd))
          (fun d hd => hclasses d (hcls hd)) (hwf hw) (Nat.le_of_lt_succ (hlt.trans_le hdepth))
      refine ⟨hfound, ?_, ?_⟩
      · intro v hv
        obtain ⟨attrs, rfl, hattrs⟩ := CType.eq_obj_of_hasType hv
        have hmethod : get attrs "pack_wire" = none := by
          refine List.lookup_eq_none_iff.2 fun a ha => ?_
          have hnot := hun.method
          rw [generateClass_fields, Members.fields_names hms.visible,
            ← Members.names_of_haveTypes hattrs] at hnot
          refine bne_iff_ne.2 fun heq => hnot (heq ▸ List.mem_map_of_mem ha)
        rw [packWireScoped, hmethod, if_neg (by simp), hfound, Option.bind_some,
          runPack_encode hms.toEncodable hw hcalls hattrs]
      · intro v bs hv hrep
        obtain ⟨attrs, rfl, hattrs⟩ := CType.eq_obj_of_hasType hv
        have hdecoder := decoder_generateClass hms hw.1 hflush
        rw [onBytes, unpackWireScoped_succ hstruct hrange hfound hms.visible hdecoder hun,
          runUnpack_represents hms.toEncodable hflush hw hcalls hattrs hrep, Option.bind_some,
          construct_generateClass hms.toEncodable hw hattrs]

end

end ReflectPytest
