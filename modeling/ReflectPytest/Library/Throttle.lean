import Mathlib.Data.List.Basic

set_option autoImplicit false

/-! # Rate limits

A limiter keeps the time of the last event it let through, and lets the next one through if more
than `gap` has passed since. Before the first one its memory holds some `start`. -/

namespace Throttle

/-- The limiter remembers `last`, and `log` are the times of the events it has let through. -/
structure Admitted (gap start last : Nat) (log : List Nat) : Prop where
  remembers : last = log.getLast?.getD start
  spaced : log.Pairwise fun a b => a + gap < b

variable {gap start last now : Nat} {log : List Nat}

theorem Admitted.nil : Admitted gap start start [] := ⟨rfl, List.Pairwise.nil⟩

/-- Everything in the log happened at the remembered time or before. -/
theorem Admitted.le_last (h : Admitted gap start last log) : ∀ a ∈ log, a ≤ last := by
  intro a ha
  obtain ⟨before, b, rfl⟩ := (List.eq_nil_or_concat' log).resolve_left (List.ne_nil_of_mem ha)
  rw [h.remembers, List.getLast?_concat, Option.getD_some]
  rcases List.mem_append.1 ha with ha | ha
  · have hspaced := (List.pairwise_append.1 h.spaced).2.2 a ha b List.mem_cons_self
    omega
  · exact Nat.le_of_eq (List.mem_singleton.1 ha)

/-- **Step lemma**: an event is let through. -/
theorem Admitted.admit (h : Admitted gap start last log) (hnow : last + gap < now) :
    Admitted gap start now (log ++ [now]) := by
  refine ⟨by simp, List.pairwise_append.2 ⟨h.spaced, List.pairwise_singleton .., ?_⟩⟩
  intro a ha b hb
  have hle := h.le_last a ha
  rw [List.mem_singleton.1 hb]
  omega

/-- Once `gap` has passed since the start, an event is let through if it is the first one or `gap`
    has passed since the one before. -/
theorem Admitted.allows_iff (h : Admitted gap start last log) (hnow : start + gap < now) :
    last + gap < now ↔ ∀ a ∈ log.getLast?, a + gap < now := by
  rw [h.remembers]
  cases log.getLast? with
  | none => simpa using hnow
  | some a => simp

end Throttle
