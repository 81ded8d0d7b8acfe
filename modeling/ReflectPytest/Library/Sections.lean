import ReflectPytest.Library.Threads

set_option autoImplicit false

/-! # One section at a time

A step of a `Machine` does one of two things to the world: it starts something, or it records a
message, or it runs the first section of some code (`Step.cases`). What is known of the code of the
handlers and of the messages under way is carried along by the frames (`Step.carries`), so that an
invariant of a run only has to be checked section by section. -/

namespace SyncBus

variable {T H W M L : Type}

namespace Code

/-- The first section, run in a world; nothing where the code is done. -/
def first : Code W M → W → W × List M
  | .done, w => (w, [])
  | .step run _, w => run w

/-- Every section of the code relates any world to what it makes of it. -/
def All (P : W → W × List M → Prop) : Code W M → Prop
  | .done => True
  | .step run next => (∀ w, P w (run w)) ∧ ∀ w, (next w).All P

/-- Every section but the first does. -/
def Rest (P : W → W × List M → Prop) : Code W M → Prop
  | .done => True
  | .step _ next => ∀ w, (next w).All P

theorem Emits.first {P : M → Prop} {c : Code W M} (h : c.Emits P) (w : W) :
    ∀ m ∈ (c.first w).2, P m := by
  cases c with
  | done => exact fun m hm => absurd hm List.not_mem_nil
  | step run next => exact h.1 w

@[simp] theorem rest_done (P : W → W × List M → Prop) : (Code.done : Code W M).Rest P := trivial

@[simp] theorem rest_single (P : W → W × List M → Prop) (run : W → W × List M) :
    (single run).Rest P := fun _ => trivial

end Code

/-- What a frame carries: the messages it holds may be published in the world as it is, and the code
    it goes on with has sections as they are known for its mutex. -/
def Frame.Carries (Pre : M → W → Prop) (P : Option L → W → W × List M → Prop) (w : W) :
    Frame H W M L → Prop
  | .publish m | .call _ m => Pre m w
  | .resume code lock => code.All (P lock)

namespace Machine

variable [DecidableEq T] [Fintype T] [DecidableEq L] {S : Machine T H W M L}
  {c c' : Config T H W M L} {a : T × Option (Frame H W M L)}

/-- What a step does to the world. -/
inductive Does (S : Machine T H W M L) (c : Config T H W M L) (w : W) :
    T × Option (Frame H W M L) → Prop
  | starts {t : T} {ms : List M} (h : S.start t c.world w ms) : Does S c w (t, none)
  | records {t : T} {m : M} (h : w = S.record m c.world) : Does S c w (t, some (.publish m))
  | calls {t : T} {s : H} {m : M} (h : w = ((S.code s m).first c.world).1) :
      Does S c w (t, some (.call s m))
  | resumes {t : T} {code : Code W M} {lock : Option L} (h : w = (code.first c.world).1) :
      Does S c w (t, some (.resume code lock))

omit [Fintype T] [DecidableEq L] in
theorem run_world (t : T) (rest : List (Frame H W M L)) (code : Code W M) (lock : Option L) :
    (c.run t rest code lock).world = (code.first c.world).1 := by
  cases code <;> rfl

/-- **Inversion lemma.** -/
theorem Step.does (h : S.Step c a c') : Does S c c'.world a := by
  cases h with
  | start hidle hstart => exact .starts hstart
  | @fire _ t f rest htop hfire =>
      cases f with
      | publish m =>
          obtain rfl := Option.some.inj hfire
          exact .records rfl
      | call s m =>
          obtain rfl := Option.some.inj (Option.ite_none_right_eq_some.1 hfire).2
          exact .calls (run_world t rest _ _)
      | resume code lock =>
          obtain rfl := Option.some.inj hfire
          exact .resumes (run_world t rest _ _)

variable {Pre : M → W → Prop} {P : Option L → W → W × List M → Prop}

/-- What has to be known of the machine: the messages allowed stay so as the world changes, and
    those that are started or published are allowed where they are. -/
structure Carrying (S : Machine T H W M L) (Pre : M → W → Prop)
    (P : Option L → W → W × List M → Prop) (le : W → W → Prop) : Prop where
  up : ∀ m w w', le w w' → Pre m w → Pre m w'
  start : ∀ t w w' ms, S.start t w w' ms → le w w' ∧ ∀ m ∈ ms, Pre m w'
  record : ∀ m w, le w (S.record m w)
  refl : ∀ w, le w w
  first : ∀ h m w, Pre m w → le w ((S.code h m).first w).1 ∧
    ∀ m' ∈ ((S.code h m).first w).2, Pre m' ((S.code h m).first w).1
  rest : ∀ h m, (S.code h m).Rest (P (S.lock h m))
  later : ∀ lock w r, P lock w r → le w r.1 ∧ ∀ m ∈ r.2, Pre m r.1

section Carrying

variable {le : W → W → Prop}

omit [DecidableEq T] [Fintype T] [DecidableEq L] in
theorem Carrying.frame_up (hS : S.Carrying Pre P le) {w w' : W} (hle : le w w')
    {f : Frame H W M L} (hf : f.Carries Pre P w) : f.Carries Pre P w' := by
  cases f with
  | publish m => exact hS.up m w w' hle hf
  | call h m => exact hS.up m w w' hle hf
  | resume code lock => exact hf

omit [Fintype T] [DecidableEq L] in
/-- A new stack of good frames on one thread, in a world that has moved up. -/
theorem Carrying.put (hS : S.Carrying Pre P le)
    (hc : ∀ t, ∀ f ∈ c.stack t, f.Carries Pre P c.world) {w : W} (hle : le c.world w) (t : T)
    {fs : List (Frame H W M L)} (hfs : ∀ f ∈ fs, f.Carries Pre P w) :
    ∀ t', ∀ f ∈ (c.put t w fs).stack t', f.Carries Pre P w := by
  intro t' f hf
  by_cases ht : t' = t
  · rw [ht, Config.put_self] at hf
    exact hfs f hf
  · rw [Config.put_other _ ht] at hf
    exact hS.frame_up hle (hc t' f hf)

omit [Fintype T] [DecidableEq L] in
/-- A section that is known to be good runs on top of good frames. -/
theorem Carrying.run (hS : S.Carrying Pre P le)
    (hc : ∀ t, ∀ f ∈ c.stack t, f.Carries Pre P c.world) (t : T) {rest : List (Frame H W M L)}
    (hrest : ∀ f ∈ rest, f.Carries Pre P c.world) {code : Code W M} {lock : Option L}
    (hfirst : le c.world (code.first c.world).1 ∧
      ∀ m ∈ (code.first c.world).2, Pre m (code.first c.world).1)
    (hcode : code.Rest (P lock)) : ∀ t', ∀ f ∈ (c.run t rest code lock).stack t',
      f.Carries Pre P (c.run t rest code lock).world := by
  cases code with
  | done => exact hS.put hc (hS.refl _) t hrest
  | step sec next =>
      refine hS.put hc hfirst.1 t fun f hf => ?_
      rcases List.mem_append.1 hf with hf | hf
      · obtain ⟨m, hm, rfl⟩ := List.mem_map.1 hf
        exact hfirst.2 m hm
      · rcases List.mem_cons.1 hf with rfl | hf
        · exact hcode c.world
        · exact hS.frame_up hfirst.1 (hrest f hf)

/-- **Step lemma.** The frames carry what is known of them along. -/
theorem Carrying.step (hS : S.Carrying Pre P le)
    (hc : ∀ t, ∀ f ∈ c.stack t, f.Carries Pre P c.world) (h : S.Step c a c') :
    ∀ t, ∀ f ∈ c'.stack t, f.Carries Pre P c'.world := by
  cases h with
  | @start t w ms hidle hstart =>
      obtain ⟨hle, hms⟩ := hS.start t c.world w ms hstart
      refine hS.put hc hle t fun f hf => ?_
      obtain ⟨m, hm, rfl⟩ := List.mem_map.1 hf
      exact hms m hm
  | @fire _ t f rest htop hfire =>
      have hrest : ∀ g ∈ rest, g.Carries Pre P c.world :=
        fun g hg => hc t g (htop ▸ List.mem_cons_of_mem _ hg)
      have hf : f.Carries Pre P c.world := hc t f (htop ▸ List.mem_cons_self)
      cases f with
      | publish m =>
          obtain rfl := Option.some.inj hfire
          refine hS.put hc (hS.record m _) t fun f hg => ?_
          rcases List.mem_append.1 hg with hg | hg
          · obtain ⟨h, -, rfl⟩ := List.mem_map.1 hg
            exact hS.up m _ _ (hS.record m _) hf
          · exact hS.frame_up (hS.record m _) (hrest f hg)
      | call h m =>
          obtain rfl := Option.some.inj (Option.ite_none_right_eq_some.1 hfire).2
          exact hS.run hc t hrest (hS.first h m c.world hf) (hS.rest h m)
      | resume code lock =>
          obtain rfl := Option.some.inj hfire
          have hcode : code.All (P lock) := hf
          cases code with
          | done => exact hS.put hc (hS.refl _) t hrest
          | step sec next =>
              exact hS.run hc t hrest (hS.later lock _ _ (hcode.1 c.world)) hcode.2

end Carrying

end Machine

end SyncBus
