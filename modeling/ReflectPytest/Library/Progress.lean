import ReflectPytest.Library.LockOrder
import ReflectPytest.Library.Cascades
import Mathlib.Data.DFinsupp.WellFounded

set_option autoImplicit false

/-! # Progress

Where threads keep to the lock order and cascades end, a thread that waits for no condition can
always be brought to the end of what it is doing, without any thread starting anything new
(`Disciplined.surfaces`). Some thread can always move: the one that is waited for at the end of the
chain. And every move brings its thread closer to its end, so the moves run out. -/

namespace LockedBus

variable {T H W C L : Type}

/-- The code waits for no condition. -/
def Prog.NeverAwaits : Prog T W C L → Prop
  | .done => True
  | .lock _ next | .unlock _ next | .call _ next => next.NeverAwaits
  | .await _ _ => False
  | .act _ next => ∀ w, (next w).NeverAwaits

@[simp] theorem Prog.neverAwaits_calls {cs : List C} {next : Prog T W C L} :
    (Prog.calls cs next).NeverAwaits ↔ next.NeverAwaits := by
  induction cs with
  | nil => rfl
  | cons c cs ih => exact ih

/-- The frame waits for no condition. -/
def Frame.NeverAwaits : Frame T H W C L → Prop
  | .invoke _ _ => True
  | .run _ p => p.NeverAwaits

/-- The frame waits for no condition, unless it is code of the thread itself. -/
def Frame.CalleeNeverAwaits : Frame T H W C L → Prop
  | .run none _ => True
  | f => f.NeverAwaits

namespace System

variable {S : System T H W C L} {rank : L → Nat} {allows : C → List L → Prop}
  {callRank : C → Nat}

/-- Firing frames that wait for nothing leaves such frames, if no handler waits. -/
theorem neverAwaits_step (hcode : ∀ h c, (S.code h c).NeverAwaits) {t : T} {w : W}
    {f : Frame T H W C L} (hf : f.NeverAwaits) : ∀ g ∈ (f.step S t w).2, g.NeverAwaits := by
  intro g hg
  cases f with
  | invoke h c =>
      rw [List.mem_singleton.1 hg]
      exact hcode h c
  | run o p =>
      cases p with
      | done => exact absurd hg List.not_mem_nil
      | await ready next => exact hf.elim
      | lock l next | unlock l next =>
          rw [List.mem_singleton.1 hg]
          exact hf
      | act action next =>
          rw [List.mem_singleton.1 hg]
          exact hf w
      | call c next =>
          rcases List.mem_append.1 hg with hg | hg
          · obtain ⟨h, -, rfl⟩ := List.mem_map.1 hg
            trivial
          · rw [List.mem_singleton.1 hg]
            exact hf

theorem calleeNeverAwaits_step (hcode : ∀ h c, (S.code h c).NeverAwaits) {t : T} {w : W}
    {f : Frame T H W C L} (hf : f.CalleeNeverAwaits) :
    ∀ g ∈ (f.step S t w).2, g.CalleeNeverAwaits := by
  have hcallee : f.NeverAwaits → ∀ g ∈ (f.step S t w).2, g.CalleeNeverAwaits := by
    intro hf g hg
    have hg := neverAwaits_step hcode hf g hg
    cases g with
    | invoke h c => trivial
    | run o p =>
        cases o with
        | none => trivial
        | some _ => exact hg
  cases f with
  | invoke h c => exact hcallee trivial
  | run o p =>
      cases o with
      | some _ => exact hcallee hf
      | none =>
          intro g hg
          cases p with
          | done => exact absurd hg List.not_mem_nil
          | lock _ _ | unlock _ _ | await _ _ | act _ _ =>
              rw [List.mem_singleton.1 hg]
              trivial
          | call c next =>
              rcases List.mem_append.1 hg with hg | hg
              · obtain ⟨h, -, rfl⟩ := List.mem_map.1 hg
                trivial
              · rw [List.mem_singleton.1 hg]
                trivial

/-- A thread can fire the frame on top of its stack. -/
def CanMove (S : System T H W C L) (c : Config T H W C L) (t : T) : Prop :=
  ∃ f rest, c.stack t = f :: rest ∧ S.Enabled c t f

/-- A thread that holds a mutex can move or waits for a mutex above all it holds. -/
theorem Orderly.holder_moves {c : Config T H W C L} (hc : S.Orderly rank allows c) {t : T} {l : L}
    (hl : l ∈ c.held t) :
    S.CanMove c t ∨ ∃ l', wants c t = some l' ∧ rank l < rank l' := by
  have hstack := hc.stack t
  cases hs : c.stack t with
  | nil =>
      rw [hs] at hstack
      rw [show c.held t = [] from hstack] at hl
      exact absurd hl List.not_mem_nil
  | cons f rest =>
      cases hwants : f.wants with
      | some l' =>
          have hw : wants c t = some l' := by
            rw [wants, hs]
            exact hwants
          rcases hc.mayLock hw with hbelow | ⟨hrec, hown⟩
          · exact .inr ⟨l', hw, hbelow l hl⟩
          · -- Its own recursive mutex is free for it.
            refine .inl ⟨f, rest, hs, fun l'' hl'' => ?_, ?_⟩
            · obtain rfl : l' = l'' := Option.some.inj (hwants.symm.trans hl'')
              exact ⟨fun t' ht' => hc.excludes t t' l' ht' hown, .inl hrec⟩
            · cases f with
              | invoke h c => rfl
              | run o p => cases p <;> first | rfl | exact nomatch hwants
      | none =>
          refine .inl ⟨f, rest, hs, fun l' hl' => (nomatch hwants.symm.trans hl'), ?_⟩
          cases f with
          | invoke h c => rfl
          | run o p =>
              cases p with
              | await ready next =>
                  -- No mutex is held while waiting for a condition.
                  rw [hs] at hstack
                  obtain ⟨held', hp, -⟩ := hstack
                  rw [hp.1] at hl
                  exact absurd hl List.not_mem_nil
              | done | lock _ _ | unlock _ _ | act _ _ | call _ _ => rfl

/-- Behind a thread that waits for a mutex some thread can move: the thread itself or one that holds
    a mutex. -/
theorem Orderly.someone_moves {c : Config T H W C L} (hc : S.Orderly rank allows c) {bound : Nat}
    (hbound : ∀ l, rank l < bound) {t : T} {l : L} (hl : wants c t = some l) :
    ∃ t', S.CanMove c t' ∧ (t' = t ∨ c.held t' ≠ []) := by
  induction hn : bound - rank l using Nat.strongRecOn generalizing t l with
  | _ n ih =>
      have hmay := hc.mayLock hl
      cases hs : c.stack t with
      | nil =>
          rw [wants, hs] at hl
          exact nomatch hl
      | cons f rest =>
          have hw : f.wants = some l := by rwa [wants, hs] at hl
          -- Along the chain of waiting threads the rank of the mutex wanted grows.
          by_cases hfree : ∀ t', t' ≠ t → l ∉ c.held t'
          · refine ⟨t, ⟨f, rest, hs, fun l' hl' => ?_, ?_⟩, .inl rfl⟩
            · obtain rfl : l = l' := Option.some.inj (hw.symm.trans hl')
              refine ⟨hfree, hmay.elim (fun hbelow => .inr fun hown => ?_) fun h => .inl h.1⟩
              exact lt_irrefl _ (hbelow l hown)
            · cases f with
              | invoke h c => rfl
              | run o p => cases p <;> first | rfl | exact nomatch hw
          · push Not at hfree
            obtain ⟨t', -, hheld⟩ := hfree
            rcases hc.holder_moves hheld with hmove | ⟨l', hl', hlt⟩
            · exact ⟨t', hmove, .inr (List.ne_nil_of_mem hheld)⟩
            · have := hbound l'
              obtain ⟨t'', hmove, hwho⟩ := ih _ (by omega) hl' rfl
              refine ⟨t'', hmove, .inr ?_⟩
              rcases hwho with rfl | hholds
              · exact List.ne_nil_of_mem hheld
              · exact hholds

/-- Moves run out: each brings one thread closer to its end and leaves the others where they
    are. -/
theorem Descends.wellFounded [Finite T] (hS : S.Descends callRank) :
    WellFounded fun c' c : Config T H W C L =>
      ∃ t, S.Advances (c.stack t) (c'.stack t) ∧ ∀ t', t' ≠ t → c'.stack t' = c.stack t' := by
  -- Any order of the threads will do, as a move changes one stack only.
  have hstacks : WellFounded (Pi.Lex (WellOrderingRel (α := T))
      fun {_} (fs' fs : List (Frame T H W C L)) => S.Advances fs fs') :=
    Pi.Lex.wellFounded _ fun _ => ⟨hS.ends⟩
  refine Subrelation.wf ?_ (InvImage.wf Config.stack hstacks)
  rintro c' c ⟨t, hadvances, hothers⟩
  exact ⟨t, fun t' ht' => hothers t' fun h => irrefl_of WellOrderingRel t (h ▸ ht'), hadvances⟩

variable [DecidableEq T] [DecidableEq L]

/-- A thread that waits for no condition goes on so, until it starts something new. -/
theorem Step.neverAwaits (hcode : ∀ h c, (S.code h c).NeverAwaits) {c c' : Config T H W C L}
    {a : T × Option (Frame T H W C L)} {t : T} (ha : a ≠ (t, none)) (hstep : S.Step c a c')
    (hc : ∀ f ∈ c.stack t, f.NeverAwaits) : ∀ f ∈ c'.stack t, f.NeverAwaits := by
  intro g hg
  cases hstep with
  | @fire t' f rest htop hready =>
      by_cases ht : t = t'
      · subst ht
        rw [System.fire, Config.put_stack_self] at hg
        rcases List.mem_append.1 hg with hg | hg
        · exact neverAwaits_step hcode (hc f (htop ▸ List.mem_cons_self)) g hg
        · exact hc g (htop ▸ List.mem_cons_of_mem _ hg)
      · rw [System.fire, Config.put_stack_other _ _ _ _ ht] at hg
        exact hc g hg
  | @start t' w p hidle hstart =>
      have ht : t ≠ t' := by
        rintro rfl
        exact ha rfl
      rw [Config.put_stack_other _ _ _ _ ht] at hg
      exact hc g hg

/-- **Progress.** What a thread has on top of `rest`, if it waits for no condition, can be brought
    to its end, by moves of that thread before it gets there and of threads that hold a mutex. -/
theorem Disciplined.surfaces [Finite T] (hS : S.Disciplined rank allows)
    (hdescends : S.Descends callRank) {bound : Nat} (hbound : ∀ l, rank l < bound)
    (hcode : ∀ h c, (S.code h c).NeverAwaits) (t : T) (rest : List (Frame T H W C L))
    (c : Config T H W C L) (hc : S.Orderly rank allows c) (above : List (Frame T H W C L))
    (hstack : c.stack t = above ++ rest) (habove : ∀ f ∈ above, f.NeverAwaits) :
    ∃ c', S.Run (fun c a => a.2 ≠ none ∧ (a.1 = t ∧ rest <:+ c.stack t ∨ c.held a.1 ≠ [])) c c' ∧
      c'.stack t = rest := by
  induction c using hdescends.wellFounded.induction generalizing above with
  | _ c ih =>
      cases above with
      | nil => exact ⟨c, Relation.ReflTransGen.refl, hstack⟩
      | cons f above =>
          -- Either `t` wants no mutex and can move, or someone in front of it can.
          have hmove : ∃ t', S.CanMove c t' ∧ (t' = t ∨ c.held t' ≠ []) := by
            cases hw : f.wants with
            | some l =>
                refine hc.someone_moves hbound (t := t) (l := l) ?_
                rw [wants, hstack]
                exact hw
            | none =>
                refine ⟨t, ⟨f, _, hstack, fun l hl => (nomatch hw.symm.trans hl), ?_⟩, .inl rfl⟩
                have hf := habove f List.mem_cons_self
                cases f with
                | invoke h c => rfl
                | run o p => cases p <;> first | rfl | exact hf.elim
          obtain ⟨t', ⟨g, rest', htop, hready⟩, hwho⟩ := hmove
          have hstep : S.Step c (t', some g) (S.fire c t' g rest') := .fire htop hready
          -- Whoever moves, `t` still has something above `rest` that waits for no condition.
          have habove' : ∃ above', (S.fire c t' g rest').stack t = above' ++ rest ∧
              ∀ f ∈ above', f.NeverAwaits := by
            by_cases htt : t = t'
            · subst htt
              obtain ⟨rfl, rfl⟩ := List.cons.inj (htop.symm.trans hstack)
              refine ⟨(g.step S t c.world).2 ++ above, ?_, fun f hf => ?_⟩
              · rw [System.fire, Config.put_stack_self, List.append_assoc]
                rfl
              · rcases List.mem_append.1 hf with hf | hf
                · exact neverAwaits_step hcode (habove g List.mem_cons_self) f hf
                · exact habove f (List.mem_cons_of_mem _ hf)
            · refine ⟨f :: above, ?_, habove⟩
              rw [System.fire, Config.put_stack_other _ _ _ _ htt]
              exact hstack
          obtain ⟨above', hstack', hnever⟩ := habove'
          obtain ⟨c', hrun, hrest⟩ := ih (S.fire c t' g rest')
            ⟨t', hstep.advances, fun t'' h => Config.put_stack_other _ _ _ _ h⟩
            (hS.step hc hstep) above' hstack' hnever
          refine ⟨c', .head ⟨_, ⟨Option.some_ne_none g, ?_⟩, hstep⟩ hrun, hrest⟩
          exact hwho.imp_left fun h => ⟨h, hstack ▸ List.suffix_append (f :: above) rest⟩

/-- A thread that waits for no condition can be brought to its end. -/
theorem Disciplined.finishes [Finite T] (hS : S.Disciplined rank allows)
    (hdescends : S.Descends callRank) {bound : Nat} (hbound : ∀ l, rank l < bound)
    (hcode : ∀ h c, (S.code h c).NeverAwaits) (t : T) (c : Config T H W C L)
    (hc : S.Orderly rank allows c) (ht : ∀ f ∈ c.stack t, f.NeverAwaits) :
    ∃ c', S.Run (fun _ a => a.2 ≠ none) c c' ∧ c'.stack t = [] := by
  obtain ⟨c', hrun, hidle⟩ := hS.surfaces hdescends hbound hcode t [] c hc (c.stack t)
    (List.append_nil _).symm ht
  exact ⟨c', hrun.mono fun _ _ h => h.1, hidle⟩

end System

end LockedBus
