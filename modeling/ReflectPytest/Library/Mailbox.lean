import Mathlib.Data.List.Perm.Basic
import Mathlib.Data.List.Infix

set_option autoImplicit false

/-! # Mailboxes with selective receive

A receiver asks for the messages of one key, or for any, and gets the first one of those that is
waiting; the others stay. `Delivers` says what such a mailbox owes: it loses and repeats nothing,
and the messages of each key come out in the order they came in. -/

namespace Mailbox

variable {α κ : Type*}

/-- Take the first element with a property out of a list. -/
def takeFirst (p : α → Bool) (l : List α) : Option (α × List α) :=
  (l.find? p).map fun a => (a, l.eraseP p)

section

variable {p : α → Bool}

theorem takeFirst_cons_pos {a : α} (h : p a = true) (l : List α) :
    takeFirst p (a :: l) = some (a, l) := by
  simp [takeFirst, h]

theorem takeFirst_cons_neg {a : α} (h : p a = false) (l : List α) :
    takeFirst p (a :: l) = (takeFirst p l).map fun x => (x.1, a :: x.2) := by
  simp [takeFirst, h, Function.comp_def]

theorem takeFirst_eq_none_iff {l : List α} : takeFirst p l = none ↔ ∀ a ∈ l, p a = false := by
  simp [takeFirst]

/-- What is taken is the first element with the property. -/
theorem takeFirst_eq_some {l rest : List α} {a : α} (h : takeFirst p l = some (a, rest)) :
    p a = true ∧ ∃ before after, l = before ++ a :: after ∧ rest = before ++ after ∧
      ∀ b ∈ before, p b = false := by
  obtain ⟨b, hfind, he⟩ := Option.map_eq_some_iff.1 h
  obtain ⟨rfl, rfl⟩ := Prod.mk.inj he
  obtain ⟨hb, before, after, rfl, hbefore⟩ := List.find?_eq_some_iff_append.1 hfind
  refine ⟨hb, before, after, rfl, ?_, by simpa using hbefore⟩
  rw [List.eraseP_append_right _ (by simpa using hbefore), List.eraseP_cons_of_pos hb]

theorem takeFirst_sublist {l rest : List α} {a : α} (h : takeFirst p l = some (a, rest)) :
    rest.Sublist l := by
  obtain ⟨-, before, after, rfl, rfl, -⟩ := takeFirst_eq_some h
  exact (List.sublist_cons_self a after).append_left before

/-- What comes later is taken only if nothing before it is. -/
theorem takeFirst_append_of_none {l : List α} (h : takeFirst p l = none) (l' : List α) :
    takeFirst p (l ++ l') = (takeFirst p l').map fun x => (x.1, l ++ x.2) := by
  have hnone := takeFirst_eq_none_iff.1 h
  rw [takeFirst, List.find?_append, List.find?_eq_none.2 (by simpa using hnone), Option.none_or,
    List.eraseP_append_right _ (by simpa using hnone), takeFirst, Option.map_map]
  rfl

end

/-! ## Deliveries -/

variable [DecidableEq κ] (key : α → κ)

/-- The messages of one key, or all of them. -/
def wants (wanted : Option κ) (m : α) : Bool :=
  match wanted with
  | none => true
  | some k => decide (key m = k)

/-- The messages with the key, in order. -/
def withKey (k : κ) (l : List α) : List α := l.filter fun m => decide (key m = k)

/-- Of what has been received some has been delivered and the rest is pending: in arrival order, and
    for each key what has been delivered comes first. -/
structure Delivers (received delivered pending : List α) : Prop where
  perKey : ∀ k, withKey key k (delivered ++ pending) = withKey key k received
  arrival : pending.Sublist received

theorem Delivers.nil : Delivers key [] [] [] := ⟨fun _ => rfl, List.Sublist.refl _⟩

variable {key}

theorem withKey_append (k : κ) (l l' : List α) :
    withKey key k (l ++ l') = withKey key k l ++ withKey key k l' := List.filter_append ..

/-- What is taken is the first of its own key. -/
theorem withKey_takeFirst {wanted : Option κ} {l rest : List α} {m : α}
    (h : takeFirst (wants key wanted) l = some (m, rest)) (k : κ) :
    withKey key k (m :: rest) = withKey key k l := by
  obtain ⟨hm, before, after, rfl, rfl, hbefore⟩ := takeFirst_eq_some h
  have hfirst : ∀ b ∈ before, key b ≠ key m := by
    intro b hb
    cases wanted with
    | none => exact absurd (hbefore b hb) (by simp [wants])
    | some k' =>
        have hkey : key m = k' := of_decide_eq_true hm
        rw [hkey]
        exact of_decide_eq_false (hbefore b hb)
  by_cases hk : key m = k
  · have hnone : withKey key k before = [] :=
      List.filter_eq_nil_iff.2 fun b hb => by simpa [← hk] using hfirst b hb
    have hkeep : ∀ l, withKey key k (m :: l) = m :: withKey key k l :=
      fun l => List.filter_cons_of_pos (by simpa using hk)
    rw [hkeep, withKey_append, withKey_append, hkeep, hnone]
    rfl
  · have hskip : ∀ l, withKey key k (m :: l) = withKey key k l :=
      fun l => List.filter_cons_of_neg (by simpa using hk)
    rw [hskip, withKey_append, withKey_append, hskip]

/-- Arrivals are pending at first. -/
theorem Delivers.arrive {received delivered pending : List α}
    (h : Delivers key received delivered pending) (arrived : List α) :
    Delivers key (received ++ arrived) delivered (pending ++ arrived) := by
  refine ⟨fun k => ?_, h.arrival.append (List.Sublist.refl _)⟩
  rw [← List.append_assoc, withKey_append k _ arrived, h.perKey, withKey_append]

/-- **A receive** keeps the mailbox in order. -/
theorem Delivers.take {received delivered pending rest : List α}
    (h : Delivers key received delivered pending) {wanted : Option κ} {m : α}
    (htake : takeFirst (wants key wanted) pending = some (m, rest)) :
    Delivers key received (delivered ++ [m]) rest := by
  refine ⟨fun k => ?_, (takeFirst_sublist htake).trans h.arrival⟩
  rw [List.append_assoc, List.singleton_append, withKey_append, withKey_takeFirst htake,
    ← withKey_append, h.perKey]

/-- **Nothing is lost or repeated.** -/
theorem Delivers.perm {received delivered pending : List α}
    (h : Delivers key received delivered pending) : (delivered ++ pending).Perm received := by
  classical
  refine List.perm_iff_count.2 fun m => ?_
  have hcount : ∀ l : List α, (withKey key (key m) l).count m = l.count m :=
    fun l => List.count_filter (by simp)
  rw [← hcount, h.perKey, hcount]

end Mailbox
