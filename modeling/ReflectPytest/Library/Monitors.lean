import ReflectPytest.Library.Threads

set_option autoImplicit false

/-! # Monitors

Handlers of a `Machine` that hold one mutex from their call to their return and, between them, own
some part of the world, the `view`. What they publish in between may come back to the mutex only to
code that leaves the view alone, so at any time at most one of them is under way (`Monitor.At`), and
what a step does to the view is one of four things (`Guards.change`): nothing, or a handler enters,
goes on, or leaves. -/

namespace SyncBus

variable {T H W M L V : Type}

/-- The mutex, the part of the world it protects, the handler calls that change this part, and the
    messages that may be published from inside them. -/
structure Monitor (H W M L V : Type) where
  mutex : L
  view : W → V
  Enters : H → M → Prop
  Sheltered : M → Prop

namespace Monitor

variable (K : Monitor H W M L V)

/-- The code leaves the view alone. -/
def Leaves (code : Code W M) : Prop := code.Grows fun w w' => K.view w' = K.view w

/-- Only the entering calls change the view, under the mutex, and from inside them nothing is
    published that comes back to such a call. -/
structure Guards (S : Machine T H W M L) : Prop where
  record : ∀ m w, K.view (S.record m w) = K.view w
  start : ∀ {t w w' ms}, S.start t w w' ms → K.view w' = K.view w
  entry : ∀ {h m}, K.Enters h m → ∃ sec next, S.code h m = .step sec next ∧
    S.lock h m = some K.mutex ∧ (S.code h m).Emits K.Sheltered
  leaves : ∀ {h m}, ¬ K.Enters h m → K.Leaves (S.code h m)
  sheltered : ∀ {h m}, K.Sheltered m → ¬ K.Enters h m ∧ (S.code h m).Emits K.Sheltered

/-- A frame outside the monitor. -/
def Outside : Frame H W M L → Prop
  | .publish _ | .call _ _ => True
  | .resume code _ => K.Leaves code

/-- A frame of what is published from inside the monitor. -/
def Under : Frame H W M L → Prop
  | .publish m | .call _ m => K.Sheltered m
  | .resume code _ => K.Leaves code ∧ code.Emits K.Sheltered

/-- Thread `t` is inside, with this code left. -/
structure Inside (c : Config T H W M L) (t : T) (code : Code W M)
    (above below : List (Frame H W M L)) : Prop where
  stack : c.stack t = above ++ .resume code (some K.mutex) :: below
  emits : code.Emits K.Sheltered
  above : ∀ f ∈ above, K.Under f
  below : ∀ f ∈ below, K.Outside f
  others : ∀ t', t' ≠ t → ∀ f ∈ c.stack t', K.Outside f

/-- Where the monitor is: nobody is inside, or one thread is, with this code left. -/
inductive At (c : Config T H W M L) : Option (Code W M) → Prop
  | free (hall : ∀ t, ∀ f ∈ c.stack t, K.Outside f) : At c none
  | inside {t : T} {code : Code W M} {above below : List (Frame H W M L)}
      (hin : K.Inside c t code above below) : At c (some code)

/-- What a step does to the monitor. -/
inductive Change (S : Machine T H W M L) (c : Config T H W M L) (a : T × Option (Frame H W M L))
    (c' : Config T H W M L) : Option (Code W M) → Option (Code W M) → Prop
  | keeps {o : Option (Code W M)} (hview : K.view c'.world = K.view c.world)
      (ha : ∀ h m, a.2 = some (.call h m) → ¬ K.Enters h m) : Change S c a c' o o
  | enters {h : H} {m : M} {sec : W → W × List M} {next : W → Code W M}
      (ha : a.2 = some (.call h m)) (henters : K.Enters h m) (hcode : S.code h m = .step sec next)
      (hworld : c'.world = (sec c.world).1) : Change S c a c' none (some (next c.world))
  | goesOn {sec : W → W × List M} {next : W → Code W M}
      (ha : a.2 = some (.resume (.step sec next) (some K.mutex)))
      (hworld : c'.world = (sec c.world).1) :
      Change S c a c' (some (.step sec next)) (some (next c.world))
  | leaves (ha : a.2 = some (.resume .done (some K.mutex))) (hworld : c'.world = c.world) :
      Change S c a c' (some .done) none

variable {K} {S : Machine T H W M L}

theorem outside_publishes (ms : List M) :
    ∀ f ∈ ms.map (Frame.publish : M → Frame H W M L), K.Outside f := by
  intro f hf
  obtain ⟨m, -, rfl⟩ := List.mem_map.1 hf
  trivial

theorem under_publishes {ms : List M} (hms : ∀ m ∈ ms, K.Sheltered m) :
    ∀ f ∈ ms.map (Frame.publish : M → Frame H W M L), K.Under f := by
  intro f hf
  obtain ⟨m, hm, rfl⟩ := List.mem_map.1 hf
  exact hms m hm

/-- A frame that does not enter the monitor: outside, or under it. -/
def Calm : Frame H W M L → Prop
  | .publish _ => True
  | .call h m => ¬ K.Enters h m
  | .resume code _ => K.Leaves code

theorem Guards.calm_of_under (hK : K.Guards S) {f : Frame H W M L} (hf : K.Under f) :
    K.Calm f := by
  cases f with
  | publish m => trivial
  | call h m => exact (hK.sheltered hf).1
  | resume code lock => exact hf.1

section

variable [DecidableEq T] {c c' : Config T H W M L} {t : T} {rest : List (Frame H W M L)}

/-- Running code that leaves the view alone. -/
theorem Leaves.run {code : Code W M} (hcode : K.Leaves code) (lock : Option L) :
    K.view (c.run t rest code lock).world = K.view c.world ∧
      ∃ fs, c.run t rest code lock = c.put t (c.run t rest code lock).world (fs ++ rest) ∧
        (∀ f ∈ fs, K.Outside f) ∧ (code.Emits K.Sheltered → ∀ f ∈ fs, K.Under f) := by
  cases code with
  | done => exact ⟨rfl, [], rfl, nofun, fun _ => nofun⟩
  | step sec next =>
      refine ⟨hcode.1 c.world, (sec c.world).2.map Frame.publish ++
        [.resume (next c.world) lock], ?_, fun f hf => ?_, fun hemits f hf => ?_⟩
      · simp [Config.run]
      · rcases List.mem_append.1 hf with hf | hf
        · exact outside_publishes _ f hf
        · rw [List.mem_singleton.1 hf]
          exact hcode.2 c.world
      · rcases List.mem_append.1 hf with hf | hf
        · exact under_publishes (hemits.1 c.world) f hf
        · rw [List.mem_singleton.1 hf]
          exact ⟨hcode.2 c.world, hemits.2 c.world⟩

variable [Fintype T] [DecidableEq L]

/-- **Step lemma for calm frames.** -/
theorem Guards.calm_fire (hK : K.Guards S) {f : Frame H W M L} (hf : K.Calm f)
    (hfire : S.fire t f rest c = some c') :
    K.view c'.world = K.view c.world ∧ ∃ fs, c' = c.put t c'.world (fs ++ rest) ∧
      (∀ g ∈ fs, K.Outside g) ∧ (K.Under f → ∀ g ∈ fs, K.Under g) := by
  cases f with
  | publish m =>
      obtain rfl := Option.some.inj hfire
      refine ⟨hK.record m c.world, (S.subscribers m).map (Frame.call · m), rfl, ?_, fun hm => ?_⟩
      · intro g hg
        obtain ⟨h, -, rfl⟩ := List.mem_map.1 hg
        trivial
      · intro g hg
        obtain ⟨h, -, rfl⟩ := List.mem_map.1 hg
        exact hm
  | call h m =>
      obtain ⟨-, heq⟩ := Option.ite_none_right_eq_some.1 hfire
      obtain rfl := Option.some.inj heq
      obtain ⟨hview, fs, hput, houtside, hunder⟩ :=
        (hK.leaves hf).run (c := c) (t := t) (S.lock h m)
      exact ⟨hview, fs, hput, houtside, fun hm => hunder (hK.sheltered hm).2⟩
  | resume code lock =>
      obtain rfl := Option.some.inj hfire
      obtain ⟨hview, fs, hput, houtside, hunder⟩ :=
        Leaves.run (c := c) (t := t) hf lock
      exact ⟨hview, fs, hput, houtside, fun hm => hunder hm.2⟩

omit [Fintype T] [DecidableEq L] in
/-- A new stack of outside frames leaves the monitor free. -/
theorem at_put_free (hall : ∀ t, ∀ f ∈ c.stack t, K.Outside f) (w : W) {fs : List (Frame H W M L)}
    (hfs : ∀ f ∈ fs, K.Outside f) : K.At (c.put t w fs) none := by
  refine .free fun t' f hf => ?_
  by_cases ht : t' = t
  · subst ht
    rw [Config.put_self] at hf
    exact hfs f hf
  · rw [Config.put_other _ ht] at hf
    exact hall t' f hf

omit [Fintype T] [DecidableEq L] in
/-- Another thread with outside frames leaves the thread inside where it is. -/
theorem Inside.put_other {t₀ : T} {code : Code W M} {above below : List (Frame H W M L)}
    (hin : K.Inside c t₀ code above below) (ht : t ≠ t₀) (w : W) {fs : List (Frame H W M L)}
    (hfs : ∀ f ∈ fs, K.Outside f) : K.Inside (c.put t w fs) t₀ code above below where
  stack := by
    rw [Config.put_other _ ht.symm]
    exact hin.stack
  emits := hin.emits
  above := hin.above
  below := hin.below
  others := by
    intro t' ht' f hf
    by_cases htt : t' = t
    · subst htt
      rw [Config.put_self] at hf
      exact hfs f hf
    · rw [Config.put_other _ htt] at hf
      exact hin.others t' ht' f hf

omit [Fintype T] [DecidableEq L] in
/-- The section of an entering call or of the code inside runs. -/
theorem inside_run {sec : W → W × List M} {next : W → Code W M}
    (hcode : (Code.step sec next).Emits K.Sheltered) (hrest : ∀ f ∈ rest, K.Outside f)
    (hothers : ∀ t', t' ≠ t → ∀ f ∈ c.stack t', K.Outside f) :
    K.Inside (c.run t rest (.step sec next) (some K.mutex)) t (next c.world)
      ((sec c.world).2.map Frame.publish) rest where
  stack := by rw [Config.run, Config.put_self]
  emits := hcode.2 c.world
  above := under_publishes (hcode.1 c.world)
  below := hrest
  others := by
    intro t' ht f hf
    rw [Config.run, Config.put_other _ ht] at hf
    exact hothers t' ht f hf

/-- A step outside, while nobody is inside. -/
theorem Guards.change_free (hK : K.Guards S) (hall : ∀ t, ∀ f ∈ c.stack t, K.Outside f)
    {f : Frame H W M L} (htop : c.stack t = f :: rest) (hfire : S.fire t f rest c = some c') :
    ∃ o', K.Change S c (t, some f) c' none o' ∧ K.At c' o' := by
  have hrest : ∀ g ∈ rest, K.Outside g :=
    fun g hg => hall t g (htop ▸ List.mem_cons_of_mem _ hg)
  by_cases henters : ∃ h m, f = .call h m ∧ K.Enters h m
  · obtain ⟨h, m, rfl, henters⟩ := henters
    obtain ⟨sec, next, hcode, hlock, hemits⟩ := hK.entry henters
    obtain ⟨-, heq⟩ := Option.ite_none_right_eq_some.1 hfire
    obtain rfl := Option.some.inj heq
    rw [hcode] at hemits
    rw [hlock, hcode]
    exact ⟨_, .enters rfl henters hcode rfl,
      .inside (inside_run hemits hrest fun t' _ => hall t')⟩
  · have hcalm : K.Calm f := by
      cases f with
      | publish m => trivial
      | call h m => exact fun h' => henters ⟨h, m, rfl, h'⟩
      | resume code lock => exact hall t _ (htop ▸ List.mem_cons_self)
    obtain ⟨hview, fs, hput, hfs, -⟩ := hK.calm_fire hcalm hfire
    refine ⟨none, .keeps hview fun h m ha h' => henters ⟨h, m, Option.some.inj ha, h'⟩, ?_⟩
    rw [hput]
    exact at_put_free hall _ fun g hg => (List.mem_append.1 hg).elim (hfs g) (hrest g)

/-- A step of another thread, while one is inside. -/
theorem Guards.change_other (hK : K.Guards S) {t₀ : T} {code : Code W M}
    {above below : List (Frame H W M L)} (hin : K.Inside c t₀ code above below) (ht : t ≠ t₀)
    {f : Frame H W M L} (htop : c.stack t = f :: rest) (hfire : S.fire t f rest c = some c') :
    ∃ o', K.Change S c (t, some f) c' (some code) o' ∧ K.At c' o' := by
  have hrest : ∀ g ∈ rest, K.Outside g :=
    fun g hg => hin.others t ht g (htop ▸ List.mem_cons_of_mem _ hg)
  -- The mutex is taken.
  have hnot : ∀ h m, f = .call h m → ¬ K.Enters h m := by
    rintro h m rfl henters
    obtain ⟨_, _, -, hlock, -⟩ := hK.entry henters
    obtain ⟨hcan, -⟩ := Option.ite_none_right_eq_some.1 hfire
    rw [hlock] at hcan
    have hmem : .resume code (some K.mutex) ∈ c.stack t₀ := by
      rw [hin.stack]
      exact List.mem_append_right _ List.mem_cons_self
    exact hcan.1 t₀ ht.symm (Config.holds_of_mem hmem)
  have hcalm : K.Calm f := by
    cases f with
    | publish m => trivial
    | call h m => exact hnot h m rfl
    | resume code lock => exact hin.others t ht _ (htop ▸ List.mem_cons_self)
  obtain ⟨hview, fs, hput, hfs, -⟩ := hK.calm_fire hcalm hfire
  refine ⟨_, .keeps hview fun h m ha => hnot h m (Option.some.inj ha), ?_⟩
  rw [hput]
  refine .inside (hin.put_other ht _ fun g hg => ?_)
  exact (List.mem_append.1 hg).elim (hfs g) (hrest g)

/-- A step of the thread inside. -/
theorem Guards.change_self (hK : K.Guards S) {code : Code W M} {above below : List (Frame H W M L)}
    (hin : K.Inside c t code above below) {f : Frame H W M L} (htop : c.stack t = f :: rest)
    (hfire : S.fire t f rest c = some c') :
    ∃ o', K.Change S c (t, some f) c' (some code) o' ∧ K.At c' o' := by
  have hstack := hin.stack
  cases above with
  | nil =>
      -- Its own code is on top.
      obtain ⟨rfl, rfl⟩ := List.cons.inj (htop.symm.trans hstack)
      obtain rfl := Option.some.inj hfire
      cases code with
      | done =>
          refine ⟨none, .leaves rfl rfl, .free fun t' g hg => ?_⟩
          by_cases ht : t' = t
          · subst ht
            rw [Config.run, Config.put_self] at hg
            exact hin.below g hg
          · rw [Config.run, Config.put_other _ ht] at hg
            exact hin.others t' ht g hg
      | step sec next =>
          exact ⟨_, .goesOn rfl rfl, .inside (inside_run hin.emits hin.below hin.others)⟩
  | cons g above =>
      obtain ⟨rfl, rfl⟩ := List.cons.inj (htop.symm.trans hstack)
      have hunder := hin.above f List.mem_cons_self
      obtain ⟨hview, fs, hput, -, hfs⟩ := hK.calm_fire (hK.calm_of_under hunder) hfire
      refine ⟨_, .keeps hview fun h m ha => ?_, ?_⟩
      · obtain rfl := Option.some.inj ha
        exact (hK.sheltered hunder).1
      · rw [hput]
        have hin' : K.Inside (c.put t c'.world
            (fs ++ (above ++ .resume code (some K.mutex) :: below))) t code (fs ++ above) below :=
          { stack := by rw [Config.put_self, List.append_assoc]
            emits := hin.emits
            above := by
              intro g hg
              rcases List.mem_append.1 hg with hg | hg
              · exact hfs hunder g hg
              · exact hin.above g (List.mem_cons_of_mem _ hg)
            below := hin.below
            others := by
              intro t' ht g hg
              rw [Config.put_other _ ht] at hg
              exact hin.others t' ht g hg }
        exact .inside hin'

/-- **Inversion lemma.** -/
theorem Guards.change (hK : K.Guards S) {o : Option (Code W M)} (hc : K.At c o)
    {a : T × Option (Frame H W M L)} (hstep : S.Step c a c') :
    ∃ o', K.Change S c a c' o o' ∧ K.At c' o' := by
  cases hstep with
  | @start t w ms hidle hstart =>
      refine ⟨o, .keeps (hK.start hstart) nofun, ?_⟩
      cases hc with
      | free hall => exact at_put_free hall w (outside_publishes ms)
      | @inside t₀ code above below hin =>
          refine .inside (hin.put_other ?_ w (outside_publishes ms))
          rintro rfl
          exact absurd (hidle.symm.trans hin.stack) (by simp)
  | @fire _ t f rest htop hfire =>
      cases hc with
      | free hall => exact hK.change_free hall htop hfire
      | @inside t₀ code above below hin =>
          by_cases ht : t = t₀
          · subst ht
            exact hK.change_self hin htop hfire
          · exact hK.change_other hin ht htop hfire

end

end Monitor

end SyncBus
