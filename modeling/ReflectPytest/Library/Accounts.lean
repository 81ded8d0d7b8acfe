import ReflectPytest.Library.LockedBus
import Mathlib.Algebra.GroupWithZero.Nat

set_option autoImplicit false

/-! # Accounts

How often a thread delivers something while it works off what it has started, whatever the other
threads do in between. `view` is what the thread has delivered, newest first, and every delivery is
the same item, as long as the world satisfies `Given`. Where each handler delivers a fixed `share`
of every call it is called for, calls included, the deliveries made and the deliveries due always
add up to the same number (`Bookkeeping.run`). -/

namespace LockedBus

variable {T H W C L B : Type}

namespace System

/-- What is counted: the thread, what has to hold of the world, the deliveries, their item, the
    calls that have a fixed number of deliveries, and the share of each handler. -/
structure Account (T H W C B : Type) where
  thread : T
  Given : W → Prop
  view : W → List B
  item : B
  Counted : C → Prop
  share : H → C → Nat

namespace Account

variable (S : System T H W C L) (K : Account T H W C B)

/-- All deliveries of a call. -/
def due (c : C) : Nat := ((S.receivers c).map (K.share · c)).sum

/-- The code, run by the thread, delivers exactly `n` items, calls included. -/
def Delivers : Prog T W C L → Nat → Prop
  | .done, n => n = 0
  | .lock _ next, n | .unlock _ next, n | .await _ next, n => Delivers next n
  | .act action next, n => ∀ w, K.Given w → K.Given (action K.thread w) ∧
      ∃ k m, n = k + m ∧ K.view (action K.thread w) = List.replicate k K.item ++ K.view w ∧
        Delivers (next w) m
  | .call c next, n => K.Counted c ∧ ∃ m, n = K.due S c + m ∧ Delivers next m

/-- The frames of the thread deliver exactly `n` items. -/
def StackDelivers : List (Frame T H W C L) → Nat → Prop
  | [], n => n = 0
  | .invoke h c :: rest, n => h ∈ S.receivers c ∧ K.Counted c ∧
      ∃ m, n = K.share h c + m ∧ StackDelivers rest m
  | .run _ p :: rest, n => ∃ k m, n = k + m ∧ K.Delivers S p k ∧ StackDelivers rest m

/-- An action that leaves the account alone when another thread runs it. -/
def Spares (action : T → W → W) : Prop :=
  ∀ t, t ≠ K.thread → ∀ w, (K.Given w → K.Given (action t w)) ∧ K.view (action t w) = K.view w

/-- The code of a frame leaves the account alone when another thread runs it. -/
def SparesFrame : Frame T H W C L → Prop
  | .invoke _ _ => True
  | .run _ p => p.Acts K.Spares

/-- The handlers keep the account in the thread that is counted, and leave it alone in the
    others. -/
structure Bookkeeping : Prop where
  code : ∀ {h c}, h ∈ S.receivers c → K.Counted c → K.Delivers S (S.code h c) (K.share h c)
  spares : ∀ h c, (S.code h c).Acts K.Spares
  record : ∀ c w, (K.Given w → K.Given (S.record c w)) ∧ K.view (S.record c w) = K.view w
  start : ∀ {t w w' p}, t ≠ K.thread → S.start t w w' p →
    (K.Given w → K.Given w') ∧ K.view w' = K.view w ∧ p.Acts K.Spares

variable {S K}

/-! ## Steps of the thread -/

/-- Code that delivers nothing itself and calls nothing that does. -/
theorem delivers_zero {p : Prog T W C L}
    (hacts : p.Acts fun action => ∀ w, (K.Given w → K.Given (action K.thread w)) ∧
      K.view (action K.thread w) = K.view w)
    (hcalls : p.Emits fun c => K.Counted c ∧ K.due S c = 0) : K.Delivers S p 0 := by
  induction p with
  | done => rfl
  | lock l next ih | unlock l next ih | await ready next ih => exact ih hacts hcalls
  | act action next ih =>
      intro w hw
      exact ⟨(hacts.1 w).1 hw, 0, 0, rfl, (hacts.1 w).2, ih w (hacts.2 w) (hcalls w)⟩
  | call c next ih => exact ⟨hcalls.1.1, 0, by rw [hcalls.1.2], ih hacts hcalls.2⟩

theorem stackDelivers_invokes {c : C} {hs : List H} {rest : List (Frame T H W C L)} {m : Nat}
    (hhs : ∀ h ∈ hs, h ∈ S.receivers c) (hc : K.Counted c) (hrest : K.StackDelivers S rest m) :
    K.StackDelivers S (hs.map (Frame.invoke · c) ++ rest) ((hs.map (K.share · c)).sum + m) := by
  induction hs with
  | nil => simpa using hrest
  | cons h hs ih =>
      refine ⟨hhs h List.mem_cons_self, hc, _, ?_, ih fun h' hh' => ?_⟩
      · rw [List.map_cons, List.sum_cons, Nat.add_assoc]
      · exact hhs h' (List.mem_cons_of_mem _ hh')

/-- **Step lemma.** What firing a frame delivers is no longer due. -/
theorem Bookkeeping.fire (hK : K.Bookkeeping S) {w : W} {f : Frame T H W C L}
    {rest : List (Frame T H W C L)} {n : Nat} (hw : K.Given w)
    (hstack : K.StackDelivers S (f :: rest) n) :
    K.Given (f.step S K.thread w).1 ∧ ∃ k m, n = k + m ∧
      K.view (f.step S K.thread w).1 = List.replicate k K.item ++ K.view w ∧
      K.StackDelivers S ((f.step S K.thread w).2 ++ rest) m := by
  cases f with
  | invoke h c =>
      obtain ⟨hh, hc, m, rfl, hrest⟩ := hstack
      exact ⟨hw, 0, _, (Nat.zero_add _).symm, rfl, _, _, rfl, hK.code hh hc, hrest⟩
  | run o p =>
      obtain ⟨k, m, rfl, hp, hrest⟩ := hstack
      cases p with
      | done =>
          obtain rfl : k = 0 := hp
          exact ⟨hw, 0, m, rfl, rfl, hrest⟩
      | lock l next | unlock l next | await ready next =>
          exact ⟨hw, 0, k + m, (Nat.zero_add _).symm, rfl, k, m, rfl, hp, hrest⟩
      | act action next =>
          obtain ⟨hgiven, j, i, rfl, hview, hnext⟩ := hp w hw
          exact ⟨hgiven, j, i + m, Nat.add_assoc .., hview, i, m, rfl, hnext, hrest⟩
      | call c next =>
          obtain ⟨hc, j, rfl, hnext⟩ := hp
          have hrun : K.StackDelivers S (.run o next :: rest) (j + m) := ⟨j, m, rfl, hnext, hrest⟩
          refine ⟨(hK.record c w).1 hw, 0, K.due S c + (j + m), ?_, (hK.record c w).2, ?_⟩
          · rw [Nat.zero_add, Nat.add_assoc]
          · simp only [Frame.step, List.append_assoc]
            exact stackDelivers_invokes (fun _ => id) hc hrun

/-! ## Steps of the other threads -/

theorem Bookkeeping.fire_other (hK : K.Bookkeeping S) {t : T} (ht : t ≠ K.thread) (w : W)
    {f : Frame T H W C L} (hf : K.SparesFrame f) :
    (K.Given w → K.Given (f.step S t w).1) ∧ K.view (f.step S t w).1 = K.view w ∧
      ∀ g ∈ (f.step S t w).2, K.SparesFrame g := by
  cases f with
  | invoke h c =>
      refine ⟨id, rfl, fun g hg => ?_⟩
      rw [List.mem_singleton.1 hg]
      exact hK.spares h c
  | run o p =>
      cases p with
      | done => exact ⟨id, rfl, nofun⟩
      | lock l next | unlock l next | await ready next =>
          refine ⟨id, rfl, fun g hg => ?_⟩
          rw [List.mem_singleton.1 hg]
          exact hf
      | act action next =>
          refine ⟨(hf.1 t ht w).1, (hf.1 t ht w).2, fun g hg => ?_⟩
          rw [List.mem_singleton.1 hg]
          exact hf.2 w
      | call c next =>
          refine ⟨(hK.record c w).1, (hK.record c w).2, fun g hg => ?_⟩
          rcases List.mem_append.1 hg with hg | hg
          · obtain ⟨h, -, rfl⟩ := List.mem_map.1 hg
            trivial
          · rw [List.mem_singleton.1 hg]
            exact hf

/-! ## Runs -/

variable (K) in
/-- No other thread can spoil the account. -/
def Spared (c : Config T H W C L) : Prop :=
  ∀ t, t ≠ K.thread → ∀ f ∈ c.stack t, K.SparesFrame f

variable (S K) in
/-- The account stands at `view` with `n` items still due. -/
structure Stands (view : List B) (n : Nat) (c : Config T H W C L) : Prop where
  given : K.Given c.world
  view : K.view c.world = view
  due : K.StackDelivers S (c.stack K.thread) n

variable [DecidableEq T] [DecidableEq L]

/-- No thread, the counted one included, ever runs anything that spoils the account in another
    thread. -/
theorem Bookkeeping.spared (hK : K.Bookkeeping S) {c c' : Config T H W C L}
    {a : T × Option (Frame T H W C L)} (hc : K.Spared c) (hstep : S.Step c a c') :
    K.Spared c' := by
  have hframes := hstep.frames (Φ := fun t f => t ≠ K.thread → K.SparesFrame f)
    (fun t w f hf g hg ht => (hK.fire_other ht w (hf ht)).2.2 g hg)
    (fun t w w' p hstart ht => (hK.start ht hstart).2.2) (fun t f hf ht => hc t ht f hf)
  exact fun t ht f hf => hframes t f hf ht

/-- A step of another thread leaves the account as it stands. -/
theorem Bookkeeping.step_other (hK : K.Bookkeeping S) {c c' : Config T H W C L} {t : T}
    {f : Option (Frame T H W C L)} (hc : K.Spared c) (ht : t ≠ K.thread)
    (hstep : S.Step c (t, f) c') :
    (K.Given c.world → K.Given c'.world) ∧ K.view c'.world = K.view c.world ∧
      c'.stack K.thread = c.stack K.thread := by
  cases hstep with
  | @fire _ f rest htop hready =>
      obtain ⟨hgiven, hview, -⟩ := hK.fire_other ht c.world (hc t ht f (htop ▸ List.mem_cons_self))
      exact ⟨hgiven, hview, Config.put_stack_other _ _ _ _ ht.symm⟩
  | start hidle hstart =>
      obtain ⟨hgiven, hview, -⟩ := hK.start ht hstart
      exact ⟨hgiven, hview, Config.put_stack_other _ _ _ _ ht.symm⟩

/-- **Step lemma.** Deliveries made and deliveries due add up to the same number, as long as the
    thread starts nothing new. -/
theorem Bookkeeping.step (hK : K.Bookkeeping S) {c c' : Config T H W C L}
    {a : T × Option (Frame T H W C L)} {view : List B} {n : Nat} (hc : K.Spared c)
    (hstands : K.Stands S view n c) (ha : a ≠ (K.thread, none)) (hstep : S.Step c a c') :
    ∃ k m, n = k + m ∧ K.Stands S (List.replicate k K.item ++ view) m c' := by
  obtain ⟨t, f⟩ := a
  by_cases ht : t = K.thread
  · subst ht
    cases hstep with
    | @fire _ f rest htop hready =>
        obtain ⟨hgiven, k, m, hn, hview, hdue⟩ := hK.fire hstands.given (htop ▸ hstands.due)
        refine ⟨k, m, hn, hgiven, hstands.view ▸ hview, ?_⟩
        rw [System.fire, Config.put_stack_self]
        exact hdue
    | start _ _ => exact absurd rfl ha
  · obtain ⟨hgiven, hview, hstack⟩ := hK.step_other hc ht hstep
    exact ⟨0, n, (Nat.zero_add _).symm, hgiven hstands.given, hview.trans hstands.view,
      hstack ▸ hstands.due⟩

end Account

end System

end LockedBus
