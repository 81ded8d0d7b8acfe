import Mathlib.Data.List.Basic

set_option autoImplicit false

/-! # Distinct elements in order of first occurrence

`List.eraseDups` keeps the first occurrence of every element. These are its rules for a sequence
that grows at the end, one element at a time, and for a list that collects no more than the first
`n` of them. -/

namespace List

variable {α : Type} [DecidableEq α]

/-- A new element comes last; a known one changes nothing. -/
theorem eraseDups_concat (l : List α) (a : α) :
    (l ++ [a]).eraseDups = if a ∈ l then l.eraseDups else l.eraseDups ++ [a] := by
  rw [eraseDups_append]
  by_cases ha : a ∈ l
  · simp [ha, removeAll]
  · simp [ha, removeAll, eraseDups_cons]

/-- Collecting the first `n` distinct elements: a new one is added while there is room. -/
theorem take_eraseDups_concat (n : Nat) (l : List α) (a : α) :
    (l ++ [a]).eraseDups.take n =
      if a ∈ l.eraseDups.take n then l.eraseDups.take n
      else if (l.eraseDups.take n).length < n then l.eraseDups.take n ++ [a]
      else l.eraseDups.take n := by
  rw [eraseDups_concat]
  by_cases hroom : l.eraseDups.length < n
  · rw [take_of_length_le (Nat.le_of_lt hroom), if_pos hroom]
    simp only [mem_eraseDups]
    split
    · exact take_of_length_le (Nat.le_of_lt hroom)
    · exact take_of_length_le (by rw [length_append]; exact hroom)
  · -- There is no room for another one.
    have hfull : ¬ (l.eraseDups.take n).length < n := by
      rw [length_take]
      omega
    rw [if_neg hfull, ite_self]
    split
    · rfl
    · exact take_append_of_le_length (Nat.not_lt.1 hroom)

end List
