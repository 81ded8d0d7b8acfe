import ReflectPytest.Library.FirstOccurrences
import Mathlib.Data.List.Induction
import Mathlib.Data.List.Nodup
import Mathlib.Logic.Function.Basic

set_option autoImplicit false

/-! # Maps in order of first insertion

A finite map that also remembers the order in which its keys were first inserted: inserting a known
key again replaces the value and keeps the place. `OrderedMap.upsert` is the common implementation,
a list searched from the front whose entries carry their keys, and `upsert_toList` says that the two
do the same. -/

/-- The keys that have a value, in the order of their first insertion. -/
structure OrderedMap (κ α : Type) where
  order : List κ
  value : κ → Option α
  nodup : order.Nodup
  mem_order : ∀ k, k ∈ order ↔ (value k).isSome = true

namespace OrderedMap

variable {κ α : Type}

def empty : OrderedMap κ α := ⟨[], fun _ => none, List.nodup_nil, fun _ => by simp⟩

/-- The values, in order. -/
def toList (m : OrderedMap κ α) : List α := m.order.filterMap m.value

/-- Every value carries its own key. -/
def Keyed (key : α → κ) (m : OrderedMap κ α) : Prop := ∀ k x, m.value k = some x → key x = k

theorem keyed_empty (key : α → κ) : (empty : OrderedMap κ α).Keyed key := by
  intro k x h
  simp [empty] at h

variable {key : α → κ} {m : OrderedMap κ α}

theorem exists_value {k : κ} (hk : k ∈ m.order) : ∃ x, m.value k = some x :=
  Option.isSome_iff_exists.1 ((m.mem_order k).1 hk)

theorem mem_toList (h : m.Keyed key) {x : α} : x ∈ m.toList ↔ m.value (key x) = some x := by
  rw [toList, List.mem_filterMap]
  constructor
  · rintro ⟨k, -, hx⟩
    rwa [h k x hx]
  · intro hx
    exact ⟨key x, (m.mem_order _).2 (by rw [hx]; rfl), hx⟩

/-- The keys of the values are the keys of the map. -/
theorem map_key_toList (h : m.Keyed key) : m.toList.map key = m.order := by
  rw [toList, List.map_filterMap]
  refine (List.filterMap_congr fun k hk => ?_).trans List.filterMap_some
  obtain ⟨x, hx⟩ := exists_value hk
  rw [hx, Option.map_some, h k x hx]

variable [DecidableEq κ]

def insert (m : OrderedMap κ α) (k : κ) (x : α) : OrderedMap κ α where
  order := if k ∈ m.order then m.order else m.order ++ [k]
  value := Function.update m.value k (some x)
  nodup := by
    split
    · exact m.nodup
    · next hk =>
        refine List.nodup_append.2 ⟨m.nodup, List.nodup_singleton k, fun a ha b hb heq => ?_⟩
        exact hk (List.mem_singleton.1 hb ▸ heq ▸ ha)
  mem_order k' := by
    by_cases hk' : k' = k
    · subst hk'
      split
      · next hk => simp [hk]
      · simp
    · rw [Function.update_of_ne hk', ← m.mem_order]
      split
      · rfl
      · simp [hk']

@[simp] theorem value_insert_self (m : OrderedMap κ α) (k : κ) (x : α) :
    (m.insert k x).value k = some x := Function.update_self ..

theorem value_insert_of_ne (m : OrderedMap κ α) {k k' : κ} (h : k' ≠ k) (x : α) :
    (m.insert k x).value k' = m.value k' := Function.update_of_ne h ..

theorem Keyed.insert (h : m.Keyed key) (x : α) : (m.insert (key x) x).Keyed key := by
  intro k y hy
  by_cases hk : k = key x
  · subst hk
    rw [value_insert_self] at hy
    rw [Option.some.inj hy]
  · rw [value_insert_of_ne m hk] at hy
    exact h k y hy

/-! ## The list that implements it -/

/-- Overwrite the first entry with the key of `x`, or append it. -/
def upsert (key : α → κ) (l : List α) (x : α) : List α :=
  match l.findIdx? (fun e => decide (key e = key x)) with
  | some i => l.set i x
  | none => l ++ [x]

theorem upsert_of_notMem {l : List α} {x : α} (h : key x ∉ l.map key) :
    upsert key l x = l ++ [x] := by
  have hnone : l.findIdx? (fun e => decide (key e = key x)) = none := by
    rw [List.findIdx?_eq_none_iff]
    intro e he
    exact decide_eq_false fun heq => h (heq ▸ List.mem_map_of_mem he)
  rw [upsert, hnone]

theorem upsert_of_mem {l : List α} {x : α} (hl : (l.map key).Nodup) (h : key x ∈ l.map key) :
    upsert key l x = l.map fun e => if key e = key x then x else e := by
  obtain ⟨e, he, hkey⟩ := List.mem_map.1 h
  obtain ⟨i, hi⟩ := Option.isSome_iff_exists.1 (List.findIdx?_isSome.trans
    (List.any_eq_true.2 ⟨e, he, decide_eq_true hkey⟩) :
      (l.findIdx? fun e => decide (key e = key x)).isSome = true)
  obtain ⟨hlt, hat, -⟩ := List.findIdx?_eq_some_iff_getElem.1 hi
  have hat := of_decide_eq_true hat
  rw [upsert, hi]
  refine List.ext_getElem (by simp) fun j hj _ => ?_
  rw [List.length_set] at hj
  rw [List.getElem_set, List.getElem_map]
  -- Keys are distinct, so the position found is the only one with this key.
  have hiff : i = j ↔ key l[j] = key x := by
    constructor
    · rintro rfl
      exact hat
    · intro hkey
      have hi' : i < (l.map key).length := by simpa using hlt
      have hj' : j < (l.map key).length := by simpa using hj
      have hij : (l.map key)[i] = (l.map key)[j] := by
        rw [List.getElem_map, List.getElem_map, hat, hkey]
      exact (List.Nodup.getElem_inj_iff hl).1 hij
  simp only [hiff]

/-- **Refinement**: overwriting or appending is inserting. -/
theorem upsert_toList (h : m.Keyed key) (x : α) :
    upsert key m.toList x = (m.insert (key x) x).toList := by
  by_cases hk : key x ∈ m.order
  · rw [upsert_of_mem (by rw [map_key_toList h]; exact m.nodup) (by rwa [map_key_toList h])]
    simp only [toList, insert, if_pos hk, List.map_filterMap]
    refine List.filterMap_congr fun k hmem => ?_
    obtain ⟨e, he⟩ := exists_value hmem
    have hkey := h k e he
    by_cases heq : k = key x
    · rw [he, heq, Function.update_self, Option.map_some, if_pos (hkey.trans heq)]
    · rw [he, Function.update_of_ne heq, he, Option.map_some, if_neg (by rwa [hkey])]
  · rw [upsert_of_notMem (by rwa [map_key_toList h])]
    simp only [toList, insert, if_neg hk, List.filterMap_append]
    congr 1
    · refine List.filterMap_congr fun k hmem => ?_
      rw [Function.update_of_ne]
      rintro rfl
      exact hk hmem
    · simp

/-! ## A whole history of insertions -/

/-- The map after inserting the given values one after another. -/
def ofList (key : α → κ) (xs : List α) : OrderedMap κ α :=
  xs.foldl (fun m x => m.insert (key x) x) empty

/-- The last of the values with the key. -/
def latest (key : α → κ) (xs : List α) (k : κ) : Option α :=
  xs.reverse.find? fun x => decide (key x = k)

theorem ofList_concat (xs : List α) (x : α) :
    ofList key (xs ++ [x]) = (ofList key xs).insert (key x) x := by
  simp [ofList]

theorem keyed_ofList (xs : List α) : (ofList key xs).Keyed key := by
  induction xs using List.reverseRecOn with
  | nil => exact keyed_empty key
  | append_singleton xs x ih =>
      rw [ofList_concat]
      exact ih.insert x

theorem order_ofList (xs : List α) : (ofList key xs).order = (xs.map key).eraseDups := by
  induction xs using List.reverseRecOn with
  | nil => rfl
  | append_singleton xs x ih =>
      rw [ofList_concat, List.map_append, List.map_singleton, List.eraseDups_concat, ← ih]
      have hmem : key x ∈ xs.map key ↔ key x ∈ (ofList key xs).order := by
        rw [ih, List.mem_eraseDups]
      simp only [insert, hmem]

theorem value_ofList (xs : List α) (k : κ) : (ofList key xs).value k = latest key xs k := by
  induction xs using List.reverseRecOn with
  | nil => rfl
  | append_singleton xs x ih =>
      rw [ofList_concat, latest, List.reverse_append, List.reverse_singleton,
        List.singleton_append, List.find?_cons]
      by_cases hk : key x = k
      · subst hk
        simp
      · simp [value_insert_of_ne _ (Ne.symm hk), hk, ih, latest]

end OrderedMap
