import Mathlib.Data.List.Infix
import Mathlib.Logic.Relation

set_option autoImplicit false

/-! # Call stacks

A machine whose steps look at the frame on top of its stack only: they put other frames in its place
and emit events. What is true of every frame and every event follows from the rules for one frame,
and the frames below a call are as they were when it returns. -/

namespace CallStacks

variable {F E : Type}

/-- A step: the rules say what may take the place of the top frame, and what it emits. -/
inductive Step (rules : F → List F → List E → Prop) : List F × List E → List F × List E → Prop where
  | top {f : F} {fs : List F} {es : List E} (below : List F) (trace : List E) (h : rules f fs es) :
      Step rules (f :: below, trace) (fs ++ below, trace ++ es)

/-- A step with something on top of `base`. -/
def StepAbove (rules : F → List F → List E → Prop) (base : List F)
    (s s' : List F × List E) : Prop :=
  Step rules s s' ∧ base.length < s.1.length

section

variable {rules : F → List F → List E → Prop} {P : F → Prop} {Q : E → Prop}
  {s s' : List F × List E}

theorem Step.frames (hP : ∀ f fs es, rules f fs es → P f → ∀ g ∈ fs, P g) (h : Step rules s s')
    (hs : ∀ f ∈ s.1, P f) : ∀ f ∈ s'.1, P f := by
  obtain ⟨below, trace, hrule⟩ := h
  intro g hg
  rcases List.mem_append.1 hg with hg | hg
  · exact hP _ _ _ hrule (hs _ List.mem_cons_self) g hg
  · exact hs g (List.mem_cons_of_mem _ hg)

theorem Step.events (hQ : ∀ f fs es, rules f fs es → P f → ∀ e ∈ es, Q e) (h : Step rules s s')
    (hs : ∀ f ∈ s.1, P f) (ht : ∀ e ∈ s.2, Q e) : ∀ e ∈ s'.2, Q e := by
  obtain ⟨below, trace, hrule⟩ := h
  intro e he
  rcases List.mem_append.1 he with he | he
  · exact ht e he
  · exact hQ _ _ _ hrule (hs _ List.mem_cons_self) e he

/-- **What the rules keep of a frame and say of an event** holds in every run. -/
theorem run_induction (hP : ∀ f fs es, rules f fs es → P f → ∀ g ∈ fs, P g)
    (hQ : ∀ f fs es, rules f fs es → P f → ∀ e ∈ es, Q e)
    (hrun : Relation.ReflTransGen (Step rules) s s') (hs : ∀ f ∈ s.1, P f) (ht : ∀ e ∈ s.2, Q e) :
    (∀ f ∈ s'.1, P f) ∧ ∀ e ∈ s'.2, Q e := by
  induction hrun with
  | refl => exact ⟨hs, ht⟩
  | tail _ hstep ih => exact ⟨hstep.frames hP ih.1, hstep.events hQ ih.1 ih.2⟩

variable {base : List F}

theorem StepAbove.suffix (h : StepAbove rules base s s') (hs : base <:+ s.1) : base <:+ s'.1 := by
  obtain ⟨⟨below, trace, hrule⟩, hlt⟩ := h
  have hbelow : base <:+ below := by
    rcases List.suffix_cons_iff.1 hs with heq | hbelow
    · rw [heq] at hlt
      exact absurd hlt (lt_irrefl _)
    · exact hbelow
  exact hbelow.trans (List.suffix_append _ _)

/-- **The frames below a call** stay as they are until it returns. -/
theorem run_above (hrun : Relation.ReflTransGen (StepAbove rules base) s s') (hs : base <:+ s.1) :
    base <:+ s'.1 := by
  induction hrun with
  | refl => exact hs
  | tail _ hstep ih => exact hstep.suffix ih

end

end CallStacks
