import Mathlib.Data.List.Basic

set_option autoImplicit false

/-! # Transducers

Machines that read a list element by element and write a list as they go. What is read in pieces is
written in pieces (`Reads.append`), so a text is followed through a machine along the way it was put
together; machines in a row read what both read (`Reads.comp`). -/

variable {σ τ α β γ : Type}

/-- A machine with states `σ` that reads `α` and writes `β`. -/
structure Transducer (σ α β : Type) where
  step : σ → α → σ × List β

namespace Transducer

/-- Read a list: the state at the end, and what was written. -/
def run (M : Transducer σ α β) (s : σ) : List α → σ × List β
  | [] => (s, [])
  | a :: as => ((M.run (M.step s a).1 as).1, (M.step s a).2 ++ (M.run (M.step s a).1 as).2)

/-- From `s` to `t` the machine reads `as` and writes `bs`. -/
def Reads (M : Transducer σ α β) (s : σ) (as : List α) (t : σ) (bs : List β) : Prop :=
  M.run s as = (t, bs)

instance (M : Transducer σ α β) [DecidableEq σ] [DecidableEq β] (s : σ) (as : List α) (t : σ)
    (bs : List β) : Decidable (M.Reads s as t bs) :=
  inferInstanceAs (Decidable (M.run s as = (t, bs)))

/-- The second machine reads what the first one writes. -/
def comp (M : Transducer σ α β) (N : Transducer τ β γ) : Transducer (σ × τ) α γ where
  step s a := (((M.step s.1 a).1, (N.run s.2 (M.step s.1 a).2).1), (N.run s.2 (M.step s.1 a).2).2)

variable {M : Transducer σ α β} {N : Transducer τ β γ} {s s' s'' : σ} {t t' : τ}

theorem run_append (as as' : List α) :
    M.run s (as ++ as') = ((M.run (M.run s as).1 as').1,
      (M.run s as).2 ++ (M.run (M.run s as).1 as').2) := by
  induction as generalizing s with
  | nil => rfl
  | cons a as ih => simp only [List.cons_append, run, ih, List.append_assoc]

/-- Machines in a row. -/
theorem run_comp (as : List α) :
    (M.comp N).run (s, t) as = (((M.run s as).1, (N.run t (M.run s as).2).1),
      (N.run t (M.run s as).2).2) := by
  induction as generalizing s t with
  | nil => rfl
  | cons a as ih =>
      rw [run, show (M.comp N).step (s, t) a = (((M.step s a).1, (N.run t (M.step s a).2).1),
        (N.run t (M.step s a).2).2) from rfl, ih]
      simp only [run, run_append]

theorem Reads.nil : M.Reads s [] s [] := rfl

theorem Reads.cons {a : α} {as : List α} {bs bs' : List β} (h : M.step s a = (s', bs))
    (hrest : M.Reads s' as s'' bs') : M.Reads s (a :: as) s'' (bs ++ bs') := by
  unfold Reads at hrest ⊢
  rw [run, h, hrest]

/-- **A text in two pieces.** -/
theorem Reads.append {as as' : List α} {bs bs' : List β} (h : M.Reads s as s' bs)
    (h' : M.Reads s' as' s'' bs') : M.Reads s (as ++ as') s'' (bs ++ bs') := by
  unfold Reads at h h' ⊢
  rw [run_append, h, h']

/-- A text in two pieces, the first of which is not answered yet. -/
theorem Reads.silent {as as' : List α} {bs : List β} (h : M.Reads s as s' [])
    (h' : M.Reads s' as' s'' bs) : M.Reads s (as ++ as') s'' bs :=
  h.append h'

/-- Many pieces, each of which leads back to where it started. -/
theorem Reads.flatMap {ι : Type} {f : ι → List α} {g : ι → List β} {is : List ι}
    (h : ∀ i ∈ is, M.Reads s (f i) s (g i)) : M.Reads s (is.flatMap f) s (is.flatMap g) := by
  induction is with
  | nil => exact .nil
  | cons i is ih =>
      rw [List.flatMap_cons, List.flatMap_cons]
      exact (h i List.mem_cons_self).append (ih fun j hj => h j (.tail _ hj))

/-- **Two machines in a row.** -/
theorem Reads.comp {as : List α} {bs : List β} {cs : List γ} (h : M.Reads s as s' bs)
    (h' : N.Reads t bs t' cs) : (M.comp N).Reads (s, t) as (s', t') cs := by
  unfold Reads at h h' ⊢
  rw [run_comp, h, h']

end Transducer
