import ReflectPytest.Library.Threads

set_option autoImplicit false

/-! # Guarantees of a bus

An invariant of the world together with what may be said of every message: `Pre` when it is
published, `Rec` once it is recorded. Both only get easier to meet as the world moves up in `le`. If
every section of every handler keeps the invariant and publishes nothing but allowed messages, then
so does every publish on its own (`Guarantee.publish`) and every interleaving of threads
(`Guarantee.run`), since the sections of other threads only move the world up. -/

namespace SyncBus

variable {T H W M L : Type}

/-- Code that publishes under `Pre` publishes under what follows from it. -/
theorem Code.Keeps.mono_pre {I A : W → Prop} {Pre Pre' : M → W → Prop} {c : Code W M}
    (h : c.Keeps I Pre A) (hpre : ∀ m w, Pre m w → Pre' m w) : c.Keeps I Pre' A := by
  induction c with
  | done => trivial
  | step run next ih =>
      refine ⟨fun w hA hw => ⟨(h.1 w hA hw).1, fun m hm => ?_⟩, fun w => ih w (h.2 w)⟩
      exact hpre m _ ((h.1 w hA hw).2 m hm)

/-- What the handlers of a bus owe each other. -/
structure Guarantee (B : Bus H W M) (le : W → W → Prop) (I : W → Prop) (Pre Rec : M → W → Prop) :
    Prop where
  grows : B.Grows le
  pre_mono : ∀ m w w', le w w' → Pre m w → Pre m w'
  rec_mono : ∀ m w w', le w w' → Rec m w → Rec m w'
  code : ∀ m, ∀ h ∈ B.subscribers m, (B.code h m).Keeps I Pre (Rec m)
  record : ∀ m w, Pre m w → I w → I (B.record m w) ∧ Rec m (B.record m w)

namespace Guarantee

variable {le : W → W → Prop} {I : W → Prop} {Pre Rec : M → W → Prop}

/-- One publish at a time. -/
theorem publish {B : Bus H W M} (hB : Guarantee B le I Pre Rec) {m : M} {w : W} (hm : Pre m w)
    (hw : I w) : I (B.publish m w) :=
  Bus.publish_keeps hB.grows hB.pre_mono hB.rec_mono hB.code hB.record m w hm hw

/-! ## Frames -/

/-- What is known about a frame: a message still to be published is allowed, a message given to a
    subscriber is recorded, and the rest of a handler keeps the invariant. -/
def Allows (B : Bus H W M) (le : W → W → Prop) (I : W → Prop) (Pre Rec : M → W → Prop) (w : W) :
    Frame H W M L → Prop
  | .publish m => Pre m w
  | .call h m => h ∈ B.subscribers m ∧ Rec m w
  | .resume code _ => code.Grows le ∧ ∃ m, Rec m w ∧ code.Keeps I Pre (Rec m)

/-- The invariant holds and every frame is allowed. -/
structure Holds (B : Bus H W M) (le : W → W → Prop) (I : W → Prop) (Pre Rec : M → W → Prop)
    (c : Config T H W M L) : Prop where
  world : I c.world
  stack : ∀ t, ∀ f ∈ c.stack t, Allows B le I Pre Rec c.world f

variable {S : Machine T H W M L} (hS : Guarantee S.toBus le I Pre Rec)
include hS

theorem allows_mono {w w' : W} (hle : le w w') {f : Frame H W M L}
    (hf : Allows S.toBus le I Pre Rec w f) : Allows S.toBus le I Pre Rec w' f := by
  cases f with
  | publish m => exact hS.pre_mono m w w' hle hf
  | call h m => exact ⟨hf.1, hS.rec_mono m w w' hle hf.2⟩
  | resume code lock =>
      obtain ⟨hgrows, m, hm, hkeeps⟩ := hf
      exact ⟨hgrows, m, hS.rec_mono m w w' hle hm, hkeeps⟩

variable [DecidableEq T]

/-- A step that moves the world up and puts allowed frames on one stack. -/
theorem put {c : Config T H W M L} (hc : Holds S.toBus le I Pre Rec c) {t : T} {w : W}
    {fs : List (Frame H W M L)} (hle : le c.world w) (hw : I w)
    (hfs : ∀ f ∈ fs, Allows S.toBus le I Pre Rec w f) :
    Holds S.toBus le I Pre Rec (c.put t w fs) := by
  refine ⟨hw, fun t' f hf => ?_⟩
  by_cases ht' : t' = t
  · subst ht'
    rw [Config.put_self] at hf
    exact hfs f hf
  · rw [Config.put_other _ ht'] at hf
    exact hS.allows_mono hle (hc.stack t' f hf)

/-- The next section of a handler. -/
theorem section_run {c : Config T H W M L} (hc : Holds S.toBus le I Pre Rec c) {t : T}
    {rest : List (Frame H W M L)} (hrest : ∀ f ∈ rest, f ∈ c.stack t) {code : Code W M}
    {lock : Option L} (hgrows : code.Grows le) {m : M} (hm : Rec m c.world)
    (hkeeps : code.Keeps I Pre (Rec m)) :
    Holds S.toBus le I Pre Rec (c.run t rest code lock) := by
  cases code with
  | done =>
      exact hS.put hc (hS.grows.refl _) hc.world fun f hf => hc.stack t f (hrest f hf)
  | step sec next =>
      have hle := hgrows.1 c.world
      obtain ⟨hI, hpre⟩ := hkeeps.1 c.world hm hc.world
      refine hS.put hc hle hI fun f hf => ?_
      rcases List.mem_append.1 hf with hf | hf
      · obtain ⟨m', hm', rfl⟩ := List.mem_map.1 hf
        exact hpre m' hm'
      · rcases List.mem_cons.1 hf with rfl | hf
        · exact ⟨hgrows.2 c.world, m, hS.rec_mono m _ _ hle hm, hkeeps.2 c.world⟩
        · exact hS.allows_mono hle (hc.stack t f (hrest f hf))

variable [Fintype T] [DecidableEq L]

/-- **Step lemma.** -/
theorem step (hstart : ∀ t w w' ms, S.start t w w' ms → I w →
      le w w' ∧ I w' ∧ ∀ m ∈ ms, Pre m w')
    {c c' : Config T H W M L} {a : T × Option (Frame H W M L)} (hc : Holds S.toBus le I Pre Rec c)
    (hstep : S.Step c a c') : Holds S.toBus le I Pre Rec c' := by
  cases hstep with
  | start hidle hs =>
      obtain ⟨hle, hw, hms⟩ := hstart _ _ _ _ hs hc.world
      refine hS.put hc hle hw fun f hf => ?_
      obtain ⟨m, hm, rfl⟩ := List.mem_map.1 hf
      exact hms m hm
  | @fire _ t f rest htop hfire =>
      have hf := hc.stack t f (htop ▸ List.mem_cons_self)
      have hrest : ∀ g ∈ rest, g ∈ c.stack t := fun g hg => htop ▸ List.mem_cons_of_mem _ hg
      cases f with
      | publish m =>
          obtain rfl := Option.some.inj hfire
          obtain ⟨hI, hrec⟩ := hS.record m c.world hf hc.world
          refine hS.put hc (hS.grows.record m _) hI fun g hg => ?_
          rcases List.mem_append.1 hg with hg | hg
          · obtain ⟨h, hh, rfl⟩ := List.mem_map.1 hg
            exact ⟨hh, hrec⟩
          · exact hS.allows_mono (hS.grows.record m _) (hc.stack t g (hrest g hg))
      | call h m =>
          obtain rfl := Option.some.inj (Option.ite_none_right_eq_some.1 hfire).2
          exact hS.section_run hc hrest (hS.grows.code h m) hf.2 (hS.code m h hf.1)
      | resume code lock =>
          obtain rfl := Option.some.inj hfire
          obtain ⟨hgrows, m, hm, hkeeps⟩ := hf
          exact hS.section_run hc hrest hgrows hm hkeeps

/-- **Run lemma**: every interleaving keeps a guarantee. -/
theorem run (hstart : ∀ t w w' ms, S.start t w w' ms → I w → le w w' ∧ I w' ∧ ∀ m ∈ ms, Pre m w')
    {P : Config T H W M L → T × Option (Frame H W M L) → Prop} {c c' : Config T H W M L}
    (hrun : S.Run P c c') (hc : Holds S.toBus le I Pre Rec c) : Holds S.toBus le I Pre Rec c' :=
  hrun.invariant hc fun _ _ _ hc _ hstep => hS.step hstart hc hstep

end Guarantee

end SyncBus
