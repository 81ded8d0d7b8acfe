import ReflectPytest.Library.Threads

set_option autoImplicit false

/-! # Undisturbed threads

Where no other thread holds a mutex, a thread that runs on by itself does what the recursive
`Bus.publish` computes (`Machine.publish_run`), so what is proved about a publish as a whole holds
of one interleaving of the machine. The thread could only block on itself, on a mutex that is not
recursive: `Machine.NoRelock` rules that out by listing which messages may be published under each
of these. -/

namespace SyncBus

variable {T H W M L : Type} [DecidableEq T]

namespace Config

/-- No other thread is inside a handler that holds a mutex. -/
def Undisturbed (c : Config T H W M L) (t : T) : Prop := ∀ t', t' ≠ t → ∀ l, ¬ c.holds t' l

@[simp] theorem put_put (c : Config T H W M L) (t : T) (w w' : W)
    (fs fs' : List (Frame H W M L)) : (c.put t w fs).put t w' fs' = c.put t w' fs' := by
  simp [put]

theorem Undisturbed.put {c : Config T H W M L} {t : T} (hc : c.Undisturbed t) (w : W)
    (fs : List (Frame H W M L)) : (c.put t w fs).Undisturbed t := by
  intro t' ht' l
  unfold holds
  rw [put_other _ ht']
  exact hc t' ht' l

end Config

namespace Machine

variable [Fintype T] [DecidableEq L] (S : Machine T H W M L)

/-- `quiet l m` says that publishing `m` never comes back to the mutex `l`: no subscriber of `m`
    takes it, and they publish only such messages again. Handlers that hold a mutex which is not
    recursive publish only messages quiet for it. -/
structure NoRelock (quiet : L → M → Prop) : Prop where
  owner : ∀ {h m l}, S.lock h m = some l → S.recursive l = false → (S.code h m).Emits (quiet l)
  lock : ∀ {l m}, quiet l m → ∀ h ∈ S.subscribers m, S.lock h m ≠ some l
  emits : ∀ {l m}, quiet l m → ∀ h ∈ S.subscribers m, (S.code h m).Emits (quiet l)

variable {S} {quiet : L → M → Prop} {c : Config T H W M L} {t : T}

/-- The messages a thread may publish while it holds these mutexes. -/
def Allows (S : Machine T H W M L) (quiet : L → M → Prop) (held : List (Option L)) (m : M) : Prop :=
  ∀ l, S.recursive l = false → some l ∈ held → quiet l m

/-- What `publish_run` says of one message, whatever is below it on the stack. -/
def Dispatches (S : Machine T H W M L) (quiet : L → M → Prop) (c : Config T H W M L) (t : T)
    (m : M) : Prop :=
  ∀ w rest, S.Allows quiet (rest.map Frame.held) m →
    S.Run (fun _ _ => True) (c.put t w (.publish m :: rest)) (c.put t (S.toBus.publish m w) rest)

theorem fire_run {w : W} {f : Frame H W M L} {rest : List (Frame H W M L)} {c' : Config T H W M L}
    (hfire : S.fire t f rest (c.put t w (f :: rest)) = some c') :
    S.Run (fun _ _ => True) (c.put t w (f :: rest)) c' :=
  Relation.ReflTransGen.single ⟨_, trivial, .fire (Config.put_self ..) hfire⟩

/-- Publishes queued on a stack run one after another. -/
theorem publishes_run (ms : List M) (w : W) (rest : List (Frame H W M L))
    (hms : ∀ m ∈ ms, S.Dispatches quiet c t m)
    (hallows : ∀ m ∈ ms, S.Allows quiet (rest.map Frame.held) m) :
    S.Run (fun _ _ => True) (c.put t w (ms.map Frame.publish ++ rest))
      (c.put t (ms.foldl (fun w m => S.toBus.publish m w) w) rest) := by
  induction ms generalizing w with
  | nil => exact Relation.ReflTransGen.refl
  | cons m ms ih =>
      -- The queued publishes hold no mutex, so what `rest` allows is allowed above them too.
      have hm : S.Allows quiet ((ms.map Frame.publish ++ rest).map Frame.held) m := by
        intro l hl hheld
        refine hallows m List.mem_cons_self l hl ?_
        simpa [Frame.held] using hheld
      refine (hms m List.mem_cons_self w _ hm).trans ?_
      exact ih _ (fun m' hm' => hms m' (List.mem_cons_of_mem _ hm'))
        fun m' hm' => hallows m' (List.mem_cons_of_mem _ hm')

/-- The code of a handler runs to its end, and its frame goes. -/
theorem code_run (code : Code W M) (lock : Option L) (w : W) (fs rest : List (Frame H W M L))
    (hcode : code.Emits (S.Dispatches quiet c t))
    (hallows : code.Emits (S.Allows quiet (lock :: rest.map Frame.held))) :
    S.Run (fun _ _ => True) ((c.put t w fs).run t rest code lock)
      (c.put t (code.exec S.toBus.publish w) rest) := by
  induction code generalizing w fs with
  | done =>
      rw [Config.run, Config.put_put]
      exact Relation.ReflTransGen.refl
  | step sec next ih =>
      rw [Config.run, Config.put_put, Config.put_world]
      -- First the publishes of the section, then the frame of the handler is on top again.
      refine (publishes_run _ _ (.resume (next w) lock :: rest) (hcode.1 w) (hallows.1 w)).trans ?_
      exact (fire_run rfl).trans (ih w _ _ (hcode.2 w) (hallows.2 w))

/-- The subscribers of a message are called one after another. -/
theorem calls_run (hnoRelock : S.NoRelock quiet) (hc : c.Undisturbed t) {m : M}
    (hlower : ∀ m', S.rank m' < S.rank m → S.Dispatches quiet c t m') (hs : List H) (w : W)
    (rest : List (Frame H W M L)) (hmem : ∀ h ∈ hs, h ∈ S.subscribers m)
    (hallows : S.Allows quiet (rest.map Frame.held) m) :
    S.Run (fun _ _ => True) (c.put t w (hs.map (Frame.call · m) ++ rest))
      (c.put t (hs.foldl (fun w h => (S.code h m).exec S.toBus.publish w) w) rest) := by
  induction hs generalizing w with
  | nil => exact Relation.ReflTransGen.refl
  | cons h hs ih =>
      have hh := hmem h List.mem_cons_self
      -- Calls and publishes hold no mutex.
      have hheld : ∀ l, some l ∈ (hs.map (Frame.call · m) ++ rest).map Frame.held →
          some l ∈ rest.map Frame.held := by
        intro l hl
        simpa [Frame.held] using hl
      -- Nobody else holds the mutex, and the thread itself only some that `m` is quiet for.
      have hfree : S.CanLock (c.put t w (.call h m :: (hs.map (Frame.call · m) ++ rest))) t
          (S.lock h m) := by
        cases hlock : S.lock h m with
        | none => trivial
        | some l =>
            refine ⟨fun t' ht' => hc.put w _ t' ht' l, or_iff_not_imp_left.2 fun hrec hown => ?_⟩
            have hown : some l ∈ rest.map Frame.held := by
              refine hheld l ?_
              simpa [Config.holds, Frame.held] using hown
            exact hnoRelock.lock (hallows l (by simpa using hrec) hown) h hh hlock
      have hemits : (S.code h m).Emits
          (S.Allows quiet (S.lock h m :: (hs.map (Frame.call · m) ++ rest).map Frame.held)) := by
        refine Code.Emits.forall fun l => Code.Emits.forall fun hrec =>
          Code.Emits.forall fun hl => ?_
        rcases List.mem_cons.1 hl with hl | hl
        · exact hnoRelock.owner hl.symm hrec
        · exact hnoRelock.emits (hallows l hrec (hheld l hl)) h hh
      have hfire : S.fire t (.call h m) (hs.map (Frame.call · m) ++ rest)
          (c.put t w (.call h m :: (hs.map (Frame.call · m) ++ rest))) = some _ := if_pos hfree
      refine (fire_run hfire).trans ?_
      refine (code_run _ _ w _ _ ((S.emits_lower h m).mono hlower) hemits).trans ?_
      exact ih _ fun h' hh' => hmem h' (List.mem_cons_of_mem _ hh')

/-- **An undisturbed publish.** In a thread no other thread can block, the steps of a publish lead
    to what the recursive dispatch computes, and leave the stack below as it was. -/
theorem publish_run (hnoRelock : S.NoRelock quiet) (hc : c.Undisturbed t) (m : M) :
    S.Dispatches quiet c t m := by
  induction hr : S.rank m using Nat.strongRecOn generalizing m with
  | _ r ih =>
      intro w rest hallows
      refine (fire_run rfl).trans ?_
      rw [S.toBus.publish_eq, Config.put_put]
      have hlower : ∀ m', S.rank m' < S.rank m → S.Dispatches quiet c t m' :=
        fun m' hm' => ih _ (hr ▸ hm') m' rfl
      exact calls_run hnoRelock hc hlower _ _ _ (fun _ => id) hallows

end Machine

end SyncBus
