import ReflectPytest.Library.LockedBus

set_option autoImplicit false

/-! # Cascades

The calls a thread makes from inside its handlers, and they from inside theirs. If every handler
only makes calls ranked below the one it runs for, a cascade ends whatever the other threads do to
the world meanwhile (`Descends.ends`), and the calls whose handlers are active on a stack get lower
and lower (`Descends.active`), so none is active twice. -/

namespace LockedBus

variable {T H W C L : Type}

namespace System

variable (S : System T H W C L)

/-- One step of a thread by itself, in whatever world the other threads have left and whenever it
    gets the mutex or the condition it waits for. -/
inductive Advances : List (Frame T H W C L) → List (Frame T H W C L) → Prop
  | fire (t : T) (w : W) (f : Frame T H W C L) (rest : List (Frame T H W C L)) :
      Advances (f :: rest) ((f.step S t w).2 ++ rest)

/-- Every handler only makes calls ranked below the one it runs for. -/
def Descends (rank : C → Nat) : Prop :=
  ∀ h c, (S.code h c).Emits fun c' => rank c' < rank c

/-- The handlers that have been called and have not returned, with their calls. -/
def active (fs : List (Frame T H W C L)) : List (H × C) :=
  fs.filterMap fun
    | .invoke _ _ => none
    | .run owner _ => owner

/-- Every call on the stack, made or still to be made, is ranked below those it is nested in. -/
def Nested (rank : C → Nat) : List (Frame T H W C L) → Prop
  | [] => True
  | .invoke _ c :: rest => (∀ a ∈ active rest, rank c < rank a.2) ∧ Nested rank rest
  | .run (some (_, c)) p :: rest =>
      p.Emits (fun c' => rank c' < rank c) ∧ (∀ a ∈ active rest, rank c < rank a.2) ∧
        Nested rank rest
  | .run none _ :: rest => rest = []

variable {S} {rank : C → Nat}

/-! ## Nesting -/

theorem active_invokes (c : C) (hs : List H) (rest : List (Frame T H W C L)) :
    active (hs.map (Frame.invoke · c) ++ rest) = active rest := by
  induction hs with
  | nil => rfl
  | cons h hs ih => exact ih

theorem nested_invokes {c : C} (hs : List H) {rest : List (Frame T H W C L)}
    (hc : ∀ a ∈ active rest, rank c < rank a.2) (hrest : Nested rank rest) :
    Nested rank (hs.map (Frame.invoke · c) ++ rest) := by
  induction hs with
  | nil => exact hrest
  | cons h hs ih => exact ⟨(active_invokes c hs rest).symm ▸ hc, ih⟩

/-- **Step lemma.** -/
theorem Descends.advances (hS : S.Descends rank) {fs fs' : List (Frame T H W C L)}
    (hfs : Nested rank fs) (hstep : S.Advances fs fs') : Nested rank fs' := by
  obtain ⟨t, w, f, rest⟩ := hstep
  cases f with
  | invoke h c => exact ⟨hS h c, hfs.1, hfs.2⟩
  | run o p =>
      cases o with
      | none =>
          obtain rfl : rest = [] := hfs
          cases p with
          | done => exact trivial
          | lock _ _ | unlock _ _ | await _ _ | act _ _ => exact rfl
          | call c next =>
              simp only [Frame.step, List.append_nil]
              exact nested_invokes _ (fun a ha => absurd ha List.not_mem_nil) rfl
      | some hc =>
          obtain ⟨hp, hbelow, hrest⟩ := hfs
          cases p with
          | done => exact hrest
          | lock _ _ | unlock _ _ | await _ _ => exact ⟨hp, hbelow, hrest⟩
          | act _ _ => exact ⟨hp w, hbelow, hrest⟩
          | call c next =>
              simp only [Frame.step, List.append_assoc]
              refine nested_invokes _ (fun a ha => ?_) ⟨hp.2, hbelow, hrest⟩
              -- The new call is below its caller, and the caller below everything further down.
              rcases List.mem_cons.1 ha with rfl | ha
              · exact hp.1
              · exact hp.1.trans (hbelow a ha)

/-- The calls whose handlers are active get lower from the bottom of the stack to its top. -/
theorem Nested.active_pairwise {fs : List (Frame T H W C L)} (hfs : Nested rank fs) :
    (active fs).Pairwise fun a b => rank a.2 < rank b.2 := by
  induction fs with
  | nil => exact List.Pairwise.nil
  | cons f rest ih =>
      cases f with
      | invoke h c => exact ih hfs.2
      | run o p =>
          cases o with
          | none =>
              obtain rfl : rest = [] := hfs
              exact List.Pairwise.nil
          | some hc => exact List.Pairwise.cons hfs.2.1 (ih hfs.2.2)

/-- **Active handlers**: at every point of a cascade the active calls are ranked strictly. -/
theorem Descends.active (hS : S.Descends rank) {p : Prog T W C L} {fs : List (Frame T H W C L)}
    (hrun : Relation.ReflTransGen (S.Advances) [.run none p] fs) :
    (active fs).Pairwise fun a b => rank a.2 < rank b.2 := by
  refine Nested.active_pairwise ?_
  induction hrun with
  | refl => exact rfl
  | tail _ hlast ih => exact hS.advances ih hlast

/-- A step of the whole system advances one thread by itself. -/
theorem Step.advances [DecidableEq T] [DecidableEq L] {c c' : Config T H W C L} {t : T}
    {f : Frame T H W C L} (hstep : S.Step c (t, some f) c') :
    S.Advances (c.stack t) (c'.stack t) := by
  cases hstep with
  | @fire _ _ rest htop _ =>
      rw [htop, System.fire, Config.put_stack_self]
      exact .fire t c.world f rest

/-- **Run lemma.** -/
theorem Descends.run [DecidableEq T] [DecidableEq L] (hS : S.Descends rank)
    {P : Config T H W C L → T × Option (Frame T H W C L) → Prop} {c c' : Config T H W C L}
    (hrun : S.Run P c c') (hc : ∀ t, Nested rank (c.stack t)) : ∀ t, Nested rank (c'.stack t) := by
  refine hrun.invariant (I := fun c => ∀ t, Nested rank (c.stack t)) hc ?_
  intro c a c' hc _ hstep t
  have hstart : ∀ t' w p, Nested rank ((c.put t' w [.run none p] (c.held t')).stack t) := by
    intro t' w p
    by_cases ht : t = t'
    · subst ht
      rw [Config.put_stack_self]
      exact rfl
    · rw [Config.put_stack_other _ _ _ _ ht]
      exact hc t
  cases hstep with
  | @fire t' f rest htop hready =>
      by_cases ht : t = t'
      · subst ht
        exact hS.advances (hc t) (Step.advances (.fire htop hready))
      · rw [System.fire, Config.put_stack_other _ _ _ _ ht]
        exact hc t
  | start _ _ => exact hstart _ _ _

/-! ## Termination -/

variable (S) in
/-- The frames are worked off in finitely many steps. -/
abbrev Ends (fs : List (Frame T H W C L)) : Prop := Acc (fun fs' fs => S.Advances fs fs') fs

theorem ends_of {f : Frame T H W C L} {rest : List (Frame T H W C L)}
    (h : ∀ t w, S.Ends ((f.step S t w).2 ++ rest)) : S.Ends (f :: rest) := by
  refine Acc.intro _ fun fs' hstep => ?_
  cases hstep with
  | fire t w _ _ => exact h t w

theorem ends_invokes {c : C} {hs : List H} {rest : List (Frame T H W C L)}
    (hc : ∀ h rest, S.Ends rest → S.Ends (.invoke h c :: rest)) (hrest : S.Ends rest) :
    S.Ends (hs.map (Frame.invoke · c) ++ rest) := by
  induction hs with
  | nil => exact hrest
  | cons h hs ih => exact hc h _ ih

/-- Code all of whose calls end ends. -/
theorem ends_run {o : Option (H × C)} {p : Prog T W C L} {rest : List (Frame T H W C L)}
    (hp : p.Emits fun c => ∀ h rest, S.Ends rest → S.Ends (.invoke h c :: rest))
    (hrest : S.Ends rest) : S.Ends (.run o p :: rest) := by
  induction p with
  | done => exact ends_of fun _ _ => hrest
  | lock l next ih | unlock l next ih | await ready next ih => exact ends_of fun _ _ => ih hp
  | act action next ih => exact ends_of fun _ w => ih w (hp w)
  | call c next ih =>
      refine ends_of fun _ _ => ?_
      simp only [Frame.step, List.append_assoc]
      exact ends_invokes hp.1 (ih hp.2)

/-- **Cascades end.** -/
theorem Descends.ends_invoke (hS : S.Descends rank) (c : C) (h : H)
    (rest : List (Frame T H W C L)) (hrest : S.Ends rest) : S.Ends (.invoke h c :: rest) := by
  induction hr : rank c using Nat.strongRecOn generalizing c h rest with
  | _ r ih =>
      refine ends_of fun _ _ => ends_run ((hS h c).mono fun c' hc' h' rest' hrest' => ?_) hrest
      exact ih _ (hr ▸ hc') c' h' rest' hrest' rfl

/-- Whatever a thread has on its stack is worked off. -/
theorem Descends.ends (hS : S.Descends rank) (fs : List (Frame T H W C L)) : S.Ends fs := by
  have hall : ∀ p : Prog T W C L,
      p.Emits fun c => ∀ h rest, S.Ends rest → S.Ends (.invoke h c :: rest) := by
    intro p
    induction p with
    | done => trivial
    | lock l next ih | unlock l next ih | await ready next ih => exact ih
    | act action next ih => exact ih
    | call c next ih => exact ⟨hS.ends_invoke c, ih⟩
  induction fs with
  | nil => exact Acc.intro _ nofun
  | cons f rest ih =>
      cases f with
      | invoke h c => exact hS.ends_invoke c h rest ih
      | run o p => exact ends_run (hall p) ih

/-- There is no infinite sequence of steps. -/
theorem Ends.no_infinite {fs : List (Frame T H W C L)} (hfs : S.Ends fs)
    (run : Nat → List (Frame T H W C L)) (hstart : run 0 = fs) :
    ∃ n, ¬ S.Advances (run n) (run (n + 1)) := by
  induction hfs generalizing run with
  | intro fs _ ih =>
      by_cases hfirst : S.Advances (run 0) (run 1)
      · obtain ⟨n, hn⟩ := ih (run 1) (hstart ▸ hfirst) (fun k => run (k + 1)) rfl
        exact ⟨n + 1, hn⟩
      · exact ⟨0, hfirst⟩

end System

end LockedBus
