import ReflectPytest.Library.Threads

set_option autoImplicit false

/-! # Frames of a step

A thread that fires a frame puts other frames in its place (`Frame.unfold`). A property of frames
that each one passes on to those holds of every frame of a run (`Step.frames`). -/

namespace SyncBus

variable {T H W M L : Type}

/-- The frames the next section of some code leaves. -/
def Code.frames (code : Code W M) (lock : Option L) (w : W) : List (Frame H W M L) :=
  match code with
  | .done => []
  | .step sec next => (sec w).2.map Frame.publish ++ [.resume (next w) lock]

/-- They publish what the code does, and the rest of it. -/
theorem Code.mem_frames {code : Code W M} {lock : Option L} {w : W} {f : Frame H W M L}
    (hf : f ∈ code.frames lock w) {P : M → Prop} (hcode : code.Emits P) :
    (∃ m, P m ∧ f = .publish m) ∨ ∃ next : Code W M, next.Emits P ∧ f = .resume next lock := by
  cases code with
  | done => exact absurd hf List.not_mem_nil
  | step sec next =>
      rcases List.mem_append.1 hf with hf | hf
      · obtain ⟨m, hm, rfl⟩ := List.mem_map.1 hf
        exact .inl ⟨m, hcode.1 w m hm, rfl⟩
      · exact .inr ⟨next w, hcode.2 w, List.mem_singleton.1 hf⟩

/-- The frames that take the place of a frame when it fires. -/
def Frame.unfold (S : Machine T H W M L) (w : W) : Frame H W M L → List (Frame H W M L)
  | .publish m => (S.subscribers m).map (Frame.call · m)
  | .call h m => (S.code h m).frames (S.lock h m) w
  | .resume code lock => code.frames lock w

namespace Machine

variable [DecidableEq T] [Fintype T] [DecidableEq L] {S : Machine T H W M L}

omit [Fintype T] [DecidableEq L] in
theorem run_eq_put (c : Config T H W M L) (t : T) (rest : List (Frame H W M L)) (code : Code W M)
    (lock : Option L) :
    ∃ w, c.run t rest code lock = c.put t w (code.frames lock c.world ++ rest) := by
  cases code with
  | done => exact ⟨_, rfl⟩
  | step sec next => exact ⟨(sec c.world).1, by simp [Config.run, Code.frames]⟩

/-- Firing a frame replaces it by others. -/
theorem fire_eq_put {t : T} {f : Frame H W M L} {rest : List (Frame H W M L)}
    {c c' : Config T H W M L} (h : S.fire t f rest c = some c') :
    ∃ w, c' = c.put t w (f.unfold S c.world ++ rest) := by
  cases f with
  | publish m => exact ⟨_, (Option.some.inj h).symm⟩
  | call h' m =>
      obtain rfl := Option.some.inj (Option.ite_none_right_eq_some.1 h).2
      exact run_eq_put c t rest _ _
  | resume code lock =>
      obtain rfl := Option.some.inj h
      exact run_eq_put c t rest code lock

/-- The other stacks stay as they are. -/
theorem Step.other {c c' : Config T H W M L} {a : T × Option (Frame H W M L)}
    (hstep : S.Step c a c') {t : T} (ht : t ≠ a.1) : c'.stack t = c.stack t := by
  cases hstep with
  | start _ _ => exact Config.put_other _ ht _ _
  | fire _ hf =>
      obtain ⟨w, rfl⟩ := fire_eq_put hf
      exact Config.put_other _ ht _ _

/-- **Frame rule.** What every frame keeps, passes on to the frames in its place, and what is
    started has, holds of every frame after the step. -/
theorem Step.frames {Φ Ψ : T → Frame H W M L → Prop} {c c' : Config T H W M L}
    {a : T × Option (Frame H W M L)} (hstep : S.Step c a c')
    (hc : ∀ t, ∀ f ∈ c.stack t, Φ t f)
    (hkeep : ∀ t, ∀ f ∈ c.stack t, Φ t f → Ψ t f)
    (hfire : ∀ t f rest, a = (t, some f) → c.stack t = f :: rest → Φ t f →
      ∀ g ∈ f.unfold S c.world, Ψ t g)
    (hstart : ∀ t w ms, a = (t, none) → S.start t c.world w ms → ∀ m ∈ ms, Ψ t (.publish m)) :
    ∀ t, ∀ f ∈ c'.stack t, Ψ t f := by
  have hput : ∀ t w fs, (∀ f ∈ fs, Ψ t f) → ∀ t', ∀ f ∈ (c.put t w fs).stack t', Ψ t' f := by
    intro t w fs hfs t' f hf
    by_cases ht' : t' = t
    · rw [ht', Config.put_self] at hf
      exact ht' ▸ hfs f hf
    · rw [Config.put_other _ ht'] at hf
      exact hkeep t' f hf (hc t' f hf)
  cases hstep with
  | start hidle hs =>
      refine hput _ _ _ fun f hf => ?_
      obtain ⟨m, hm, rfl⟩ := List.mem_map.1 hf
      exact hstart _ _ _ rfl hs m hm
  | @fire _ t f rest htop hf =>
      have hmem : f ∈ c.stack t := htop ▸ List.mem_cons_self
      obtain ⟨w, rfl⟩ := fire_eq_put hf
      refine hput _ _ _ fun g hg => ?_
      rcases List.mem_append.1 hg with hg | hg
      · exact hfire t f rest rfl htop (hc t f hmem) g hg
      · have hgmem : g ∈ c.stack t := htop ▸ List.mem_cons_of_mem _ hg
        exact hkeep t g hgmem (hc t g hgmem)

end Machine

end SyncBus
