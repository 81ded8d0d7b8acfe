import Mathlib.Data.List.DropRight
import Mathlib.Data.List.Forall2
import ReflectPytest.Wire.Order

set_option autoImplicit false

/-! # Python names of C++ types

The generator names a class after the display string of its C++ type, without namespaces and with
underscores for what Python does not allow in a name. Two types keep different names when their
display strings differ in more than what is taken out. A `std::string` is the list of its
characters. -/

namespace ReflectPytest

namespace TypeNames

/-! ## The names -/

/-- `std::string::find`, for a pattern that is not empty. -/
def find (pattern : List Char) : List Char → Option Nat
  | [] => none
  | c :: cs => if pattern.isPrefixOf (c :: cs) then some 0 else (find pattern cs).map (· + 1)

/-- `if (pos != npos) s.replace(pos, n, "")`, for the first occurrence of a pattern of length
    `n`. -/
def eraseFirst (pattern s : List Char) : List Char :=
  match find pattern s with
  | some pos => s.take pos ++ s.drop (pos + pattern.length)
  | none => s

/-- `get_cxx_type_name`, of a class with the given display string. -/
def getCxxTypeName (displayString : List Char) : List Char :=
  let s := displayString
  let s := eraseFirst "ipc::".toList s
  let s := eraseFirst "sil::".toList s
  s

/-- The characters that are replaced. -/
def isReplaced (c : Char) : Bool := c == '<' || c == '>' || c == ',' || c == ' ' || c == ':'

/-- The replacement. -/
def underscored (c : Char) : Char := if isReplaced c then '_' else c

/-- `get_python_type_name`, of a class with the given display string. -/
def getPythonTypeName (displayString : List Char) : List Char :=
  let s := getCxxTypeName displayString
  let s := s.map underscored
  s.rdropWhile (· == '_')

/-! ## Python identifiers -/

def keywords : List (List Char) :=
  ["False".toList, "None".toList, "True".toList, "and".toList, "as".toList, "assert".toList,
    "async".toList, "await".toList, "break".toList, "class".toList, "continue".toList,
    "def".toList, "del".toList, "elif".toList, "else".toList, "except".toList, "finally".toList,
    "for".toList, "from".toList, "global".toList, "if".toList, "import".toList, "in".toList,
    "is".toList, "lambda".toList, "nonlocal".toList, "not".toList, "or".toList, "pass".toList,
    "raise".toList, "return".toList, "try".toList, "while".toList, "with".toList, "yield".toList]

section

-- the characters beyond ASCII that an identifier may start with, and go on with
variable (xid : Bool → Char → Bool)

/-- The character may stand in an identifier, `first` or later. -/
def isIdentifierChar (first : Bool) (c : Char) : Bool :=
  if c.toNat < 128 then c == '_' || c.isAlpha || (c.isDigit && !first) else xid first c

/-- The characters of an identifier: `p true` holds of the first and `p false` of the others. -/
def allFrom (p : Bool → Char → Bool) : List Char → Bool
  | [] => false
  | c :: cs => p true c && cs.all (p false)

/-- The string can be the name of a class. -/
def IsPythonName (s : List Char) : Prop :=
  allFrom (isIdentifierChar xid) s = true ∧ s ∉ keywords

/-- The two types get different names, and Python takes both. -/
def KeptApart (s t : List Char) : Prop :=
  getPythonTypeName s ≠ getPythonTypeName t ∧ IsPythonName xid (getPythonTypeName s) ∧
    IsPythonName xid (getPythonTypeName t)

end

/-! ## What is left of a display string -/

/-- The character is an underscore in the name. -/
def isBlank (c : Char) : Bool := isReplaced c || c == '_'

/-- The display string without its first `ipc::`, then without its first `sil::`, and without the
    blanks at its end. -/
def stem (displayString : List Char) : List Char :=
  (eraseFirst "sil::".toList (eraseFirst "ipc::".toList displayString)).rdropWhile isBlank

/-- The same up to which blanks they have. -/
def Alike (s t : List Char) : Prop :=
  List.Forall₂ (fun c d => c = d ∨ (isBlank c = true ∧ isBlank d = true)) s t

/-- Nothing in the string but blanks and characters of identifiers, no digit first; and no
keyword. -/
def Spellable (xid : Bool → Char → Bool) (s : List Char) : Prop :=
  allFrom (fun first c => isBlank c || isIdentifierChar xid first c) s = true ∧ s ∉ keywords

theorem underscored_eq_underscore (c : Char) : (underscored c == '_') = isBlank c := by
  unfold underscored isBlank
  split
  · next h => simp [h]
  · next h => simp [h]

theorem underscored_of_not_blank {c : Char} (h : isBlank c = false) : underscored c = c := by
  unfold isBlank at h
  rw [Bool.or_eq_false_iff] at h
  simp [underscored, h.1]

theorem underscored_of_blank {c : Char} (h : isBlank c = true) : underscored c = '_' := by
  rw [← underscored_eq_underscore] at h
  exact beq_iff_eq.1 h

/-- **The name is the stem with underscores.** -/
theorem getPythonTypeName_eq (s : List Char) : getPythonTypeName s = (stem s).map underscored := by
  have hblank : ((· == '_') ∘ underscored) = isBlank := funext underscored_eq_underscore
  unfold getPythonTypeName getCxxTypeName stem
  simp only [List.rdropWhile, ← List.map_reverse, List.dropWhile_map, hblank]

theorem underscored_eq_iff {c d : Char} :
    underscored c = underscored d ↔ c = d ∨ (isBlank c = true ∧ isBlank d = true) := by
  constructor
  · intro h
    cases hc : isBlank c with
    | true =>
        rw [underscored_of_blank hc] at h
        exact .inr ⟨rfl, by rw [← underscored_eq_underscore, ← h]; rfl⟩
    | false =>
        cases hd : isBlank d with
        | true =>
            rw [underscored_of_blank hd] at h
            rw [← underscored_eq_underscore, h] at hc
            exact absurd hc (by decide)
        | false =>
            rw [underscored_of_not_blank hc, underscored_of_not_blank hd] at h
            exact .inl h
  · rintro (rfl | ⟨hc, hd⟩)
    · rfl
    · rw [underscored_of_blank hc, underscored_of_blank hd]

theorem map_underscored_eq_iff {s t : List Char} :
    s.map underscored = t.map underscored ↔ Alike s t := by
  rw [← List.forall₂_eq_eq_eq, List.forall₂_map_left_iff, List.forall₂_map_right_iff, Alike]
  simp only [underscored_eq_iff]

section

variable {xid : Bool → Char → Bool}

theorem isIdentifierChar_underscored (first : Bool) (c : Char) :
    isIdentifierChar xid first (underscored c) = (isBlank c || isIdentifierChar xid first c) := by
  cases h : isBlank c with
  | true =>
      rw [underscored_of_blank h]
      rfl
  | false => rw [underscored_of_not_blank h, Bool.false_or]

theorem allFrom_map_underscored (s : List Char) :
    allFrom (isIdentifierChar xid) (s.map underscored) =
      allFrom (fun first c => isBlank c || isIdentifierChar xid first c) s := by
  cases s with
  | nil => rfl
  | cons c cs =>
      have hrest : isIdentifierChar xid false ∘ underscored =
          fun c => isBlank c || isIdentifierChar xid false c :=
        funext (isIdentifierChar_underscored false)
      simp only [List.map_cons, allFrom, List.all_map, isIdentifierChar_underscored, hrest]

/-- No keyword has an underscore. -/
theorem map_underscored_mem_keywords {s : List Char} :
    s.map underscored ∈ keywords ↔ s ∈ keywords := by
  have hplain : ∀ k ∈ keywords, ∀ c ∈ k, isBlank c = false := by
    have hall : (keywords.all fun k => k.all fun c => !isBlank c) = true := by decide
    simpa only [List.all_eq_true, Bool.not_eq_true'] using hall
  constructor
  · intro h
    have hsame : s.map underscored = s := by
      refine (List.map_congr_left fun c hc => ?_).trans (List.map_id s)
      have hblank := hplain _ h _ (List.mem_map_of_mem hc)
      rw [← underscored_eq_underscore] at hblank
      cases hc' : isBlank c with
      | true =>
          rw [underscored_of_blank hc'] at hblank
          exact absurd hblank (by decide)
      | false => exact underscored_of_not_blank hc'
    rwa [hsame] at h
  · intro h
    have hsame : s.map underscored = s :=
      (List.map_congr_left fun c hc => underscored_of_not_blank (hplain s h c hc)).trans
        (List.map_id s)
    rwa [hsame]

theorem isPythonName_iff {s : List Char} :
    IsPythonName xid (getPythonTypeName s) ↔ Spellable xid (stem s) := by
  rw [IsPythonName, Spellable, getPythonTypeName_eq, allFrom_map_underscored,
    map_underscored_mem_keywords]

/-- **Two types are kept apart exactly when** their stems differ in more than blanks and can be
    spelled. -/
theorem keptApart_iff (s t : List Char) :
    KeptApart xid s t ↔
      ¬Alike (stem s) (stem t) ∧ Spellable xid (stem s) ∧ Spellable xid (stem t) := by
  rw [KeptApart, isPythonName_iff, isPythonName_iff, Ne, getPythonTypeName_eq, getPythonTypeName_eq,
    map_underscored_eq_iff]

end

/-- Two namespaces, and nothing for non-ASCII characters to decide. -/
theorem sample_not_keptApart : "ipc::Sample".toList ≠ "sil::Sample".toList ∧
    ¬KeptApart (fun _ _ => false) "ipc::Sample".toList "sil::Sample".toList := by
  have hsame : getPythonTypeName "ipc::Sample".toList =
      getPythonTypeName "sil::Sample".toList := by
    decide
  exact ⟨by decide, fun h => h.1 hsame⟩

end TypeNames

/-! ## What a merged name does -/

/-- A class whose name has been taken is not emitted. -/
theorem generateStruct_of_taken (name : String) (ms ms' : Members) (e : Emitted) :
    generateStruct (.cls name ms') (generateStruct (.cls name ms) e) =
      generateStruct (.cls name ms) e := by
  have hvisited : name ∈ (generateStruct (.cls name ms) e).visited := by
    rw [generateStruct]
    split
    · next h => simpa using h
    · exact (generateNested_visited ms (e := { e with visited := name :: e.visited })
        List.mem_cons_self).1
  rw [generateStruct.eq_def (.cls name ms')]
  simp [hvisited]

end ReflectPytest
