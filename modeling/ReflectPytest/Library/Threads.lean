import ReflectPytest.Library.SyncBus
import Mathlib.Data.Fintype.Basic
import Mathlib.Logic.Function.Basic
import Mathlib.Logic.Relation

set_option autoImplicit false

/-! # Threads sharing a synchronous bus

The interleaving semantics of `SyncBus`: each thread owns a stack of frames and a step fires the top
frame of one thread. A handler may hold a mutex from its call to its return, across its nested
publishes; a section is atomic, since the fields it touches are only touched under that mutex.

Which thread holds which mutex is read off the stacks (`Config.holds`), so there is no separate
lock table to keep consistent with them. -/

namespace SyncBus

variable {T H W M L : Type}

/-- A bus together with its threads: the mutex a handler holds during a call, which mutexes may be
    locked again by their owner, and what an idle thread may do to the world and publish. -/
structure Machine (T H W M L : Type) extends Bus H W M where
  lock : H → M → Option L
  recursive : L → Bool
  start : T → W → W → List M → Prop

/-- A pending activity of a thread. -/
inductive Frame (H W M L : Type) where
  /-- A publish that has not looked up the subscribers yet. -/
  | publish (m : M)
  /-- A subscriber that is still to be called. -/
  | call (h : H) (m : M)
  /-- The rest of a handler, with the mutex its call holds. -/
  | resume (code : Code W M) (lock : Option L)

/-- The mutex a frame holds. -/
def Frame.held : Frame H W M L → Option L
  | .resume _ l => l
  | _ => none

/-- What the world knows about a frame: the message of a call has been recorded, and the rest of a
    handler moves the world up. -/
def Frame.Known (le : W → W → Prop) (Recorded : M → W → Prop) (w : W) : Frame H W M L → Prop
  | .publish _ => True
  | .call _ m => Recorded m w
  | .resume code _ => code.Grows le

/-- The shared world and the stack of every thread, innermost activity first. -/
structure Config (T H W M L : Type) where
  world : W
  stack : T → List (Frame H W M L)

namespace Config

/-- Thread `t` is inside a handler that holds `l`. -/
def holds (c : Config T H W M L) (t : T) (l : L) : Prop :=
  some l ∈ (c.stack t).map Frame.held

instance [DecidableEq L] (c : Config T H W M L) (t : T) (l : L) : Decidable (c.holds t l) :=
  inferInstanceAs (Decidable (_ ∈ _))

theorem holds_of_mem {c : Config T H W M L} {t : T} {l : L} {code : Code W M}
    (h : Frame.resume code (some l) ∈ c.stack t) : c.holds t l :=
  List.mem_map.2 ⟨_, h, rfl⟩

variable [DecidableEq T]

/-- A new world, and a new stack for one thread. -/
def put (c : Config T H W M L) (t : T) (w : W) (fs : List (Frame H W M L)) : Config T H W M L :=
  ⟨w, Function.update c.stack t fs⟩

@[simp] theorem put_world (c : Config T H W M L) (t : T) (w : W) (fs : List (Frame H W M L)) :
    (c.put t w fs).world = w := rfl

@[simp] theorem put_self (c : Config T H W M L) (t : T) (w : W) (fs : List (Frame H W M L)) :
    (c.put t w fs).stack t = fs := Function.update_self ..

@[simp] theorem put_other (c : Config T H W M L) {t t' : T} (h : t' ≠ t) (w : W)
    (fs : List (Frame H W M L)) : (c.put t w fs).stack t' = c.stack t' :=
  Function.update_of_ne h ..

/-- Run the next section of `code` on top of `rest`; at its end the frame and its mutex go. -/
def run (c : Config T H W M L) (t : T) (rest : List (Frame H W M L)) (code : Code W M)
    (lock : Option L) : Config T H W M L :=
  match code with
  | .done => c.put t c.world rest
  | .step sec next =>
      c.put t (sec c.world).1
        ((sec c.world).2.map Frame.publish ++ Frame.resume (next c.world) lock :: rest)

end Config

namespace Machine

variable [DecidableEq T] [Fintype T] [DecidableEq L] (S : Machine T H W M L)

/-- Thread `t` can take the mutex: no other thread holds it, and `t` itself does not either unless
    the mutex is recursive. -/
def CanLock (c : Config T H W M L) (t : T) : Option L → Prop
  | none => True
  | some l => (∀ t', t' ≠ t → ¬ c.holds t' l) ∧ (S.recursive l = true ∨ ¬ c.holds t l)

instance (c : Config T H W M L) (t : T) (l : Option L) : Decidable (S.CanLock c t l) :=
  match l with
  | none => isTrue trivial
  | some _ => inferInstanceAs (Decidable (_ ∧ _))

/-- Fire the frame `f` on top of `rest` in thread `t`; a call blocks while its mutex is taken. -/
def fire (t : T) (f : Frame H W M L) (rest : List (Frame H W M L)) (c : Config T H W M L) :
    Option (Config T H W M L) :=
  match f with
  | .publish m =>
      some (c.put t (S.record m c.world) ((S.subscribers m).map (Frame.call · m) ++ rest))
  | .call h m =>
      if S.CanLock c t (S.lock h m) then some (c.run t rest (S.code h m) (S.lock h m)) else none
  | .resume code lock => some (c.run t rest code lock)

/-- One step of the machine, labelled with its thread and the frame it fires (`none` when an idle
    thread starts something). -/
inductive Step : Config T H W M L → T × Option (Frame H W M L) → Config T H W M L → Prop
  | fire {c c' : Config T H W M L} {t : T} {f : Frame H W M L} {rest : List (Frame H W M L)}
      (htop : c.stack t = f :: rest) (hfire : S.fire t f rest c = some c') :
      Step c (t, some f) c'
  | start {c : Config T H W M L} {t : T} {w : W} {ms : List M} (hidle : c.stack t = [])
      (hstart : S.start t c.world w ms) :
      Step c (t, none) (c.put t w (ms.map Frame.publish))

/-- Runs all of whose steps meet the condition `P` on the configuration and the label. -/
def Run (P : Config T H W M L → T × Option (Frame H W M L) → Prop) :
    Config T H W M L → Config T H W M L → Prop :=
  Relation.ReflTransGen fun c c' => ∃ a, P c a ∧ S.Step c a c'

variable {S}

/-- **Invariant rule for runs.** -/
theorem Run.invariant {P : Config T H W M L → T × Option (Frame H W M L) → Prop}
    {I : Config T H W M L → Prop} {c c' : Config T H W M L} (hrun : S.Run P c c') (hinit : I c)
    (hstep : ∀ c a c', I c → P c a → S.Step c a c' → I c') : I c' := by
  induction hrun with
  | refl => exact hinit
  | tail _ hlast ih =>
      obtain ⟨a, hP, hs⟩ := hlast
      exact hstep _ a _ ih hP hs

/-! ## Runs with a history variable -/

section Watched

variable {G : Type}
  {watch : Config T H W M L → T × Option (Frame H W M L) → Config T H W M L → G → G}
  {P : Config T H W M L × G → T × Option (Frame H W M L) → Prop}

variable (S watch P) in
/-- Runs beside a history that `watch` keeps, all of whose steps meet the condition `P`. -/
def Watched : Config T H W M L × G → Config T H W M L × G → Prop :=
  Relation.ReflTransGen fun x y => ∃ a, P x a ∧ S.Step x.1 a y.1 ∧ y.2 = watch x.1 a y.1 x.2

theorem Watched.invariant {I : Config T H W M L × G → Prop} {x y : Config T H W M L × G}
    (hrun : S.Watched watch P x y) (hinit : I x)
    (hstep : ∀ c g a c', I (c, g) → P (c, g) a → S.Step c a c' → I (c', watch c a c' g)) : I y := by
  induction hrun with
  | refl => exact hinit
  | tail _ hlast ih =>
      obtain ⟨a, hP, hs, hg⟩ := hlast
      have hnext := hstep _ _ a _ ih hP hs
      rwa [← hg] at hnext

/-- The history is only looked at: every run has one. -/
theorem Run.watched {c c' : Config T H W M L} (hrun : S.Run (fun _ _ => True) c c') (g : G) :
    ∃ g', S.Watched watch (fun _ _ => True) (c, g) (c', g') := by
  induction hrun with
  | refl => exact ⟨g, Relation.ReflTransGen.refl⟩
  | tail _ hlast ih =>
      obtain ⟨g', hwatched⟩ := ih
      obtain ⟨a, -, hs⟩ := hlast
      exact ⟨watch _ a _ g', hwatched.tail ⟨a, trivial, hs, rfl⟩⟩

theorem Watched.run {x y : Config T H W M L × G} (hrun : S.Watched watch P x y) :
    S.Run (fun _ _ => True) x.1 y.1 := by
  induction hrun with
  | refl => exact Relation.ReflTransGen.refl
  | tail _ hlast ih =>
      obtain ⟨a, -, hs, -⟩ := hlast
      exact ih.tail ⟨a, trivial, hs⟩

end Watched

/-- A step that fires a frame fires one of the stack. -/
theorem Step.mem_stack {c c' : Config T H W M L} {t : T} {f : Frame H W M L}
    (h : S.Step c (t, some f) c') : f ∈ c.stack t := by
  cases h with
  | fire htop _ =>
      rw [htop]
      exact List.mem_cons_self

/-- **Calls are of recorded messages.** Where the world only grows and keeps what is recorded, a
    handler is only ever called for a message that has been recorded. -/
theorem Run.known {P : Config T H W M L → T × Option (Frame H W M L) → Prop} {le : W → W → Prop}
    {Recorded : M → W → Prop} (hgrows : S.toBus.Grows le)
    (hup : ∀ m w w', le w w' → Recorded m w → Recorded m w')
    (hrecord : ∀ m w, Recorded m (S.record m w))
    (hstart : ∀ t w w' ms, S.start t w w' ms → le w w') {c c' : Config T H W M L}
    (hrun : S.Run P c c') (hc : ∀ t, ∀ f ∈ c.stack t, f.Known le Recorded c.world) :
    ∀ t, ∀ f ∈ c'.stack t, f.Known le Recorded c'.world := by
  refine Run.invariant (I := fun c => ∀ t, ∀ f ∈ c.stack t, f.Known le Recorded c.world) hrun hc ?_
  clear hrun hc c c'
  have hknown : ∀ w w', le w w' → ∀ f : Frame H W M L, f.Known le Recorded w →
      f.Known le Recorded w' := by
    intro w w' hle f hf
    cases f with
    | publish m => trivial
    | call h m => exact hup m w w' hle hf
    | resume code lock => exact hf
  -- A step puts a new stack on one thread; the other stacks only see the world grow.
  have hput : ∀ (c : Config T H W M L) t w fs, le c.world w →
      (∀ t, ∀ f ∈ c.stack t, f.Known le Recorded c.world) → (∀ f ∈ fs, f.Known le Recorded w) →
      ∀ t', ∀ f ∈ (c.put t w fs).stack t', f.Known le Recorded w := by
    intro c t w fs hle hI hfs t' f hf
    by_cases ht' : t' = t
    · rw [ht', Config.put_self] at hf
      exact hfs f hf
    · rw [Config.put_other _ ht'] at hf
      exact hknown _ _ hle f (hI t' f hf)
  have hexec : ∀ (c : Config T H W M L) t rest code lock, code.Grows le →
      (∀ t, ∀ f ∈ c.stack t, f.Known le Recorded c.world) → (∀ f ∈ rest, f ∈ c.stack t) →
      ∀ t', ∀ f ∈ (c.run t rest code lock).stack t',
        f.Known le Recorded (c.run t rest code lock).world := by
    intro c t rest code lock hcode hI hrest
    cases code with
    | done => exact hput c t _ rest (hgrows.refl _) hI fun f hf => hI t f (hrest f hf)
    | step sec next =>
        refine hput c t _ _ (hcode.1 c.world) hI fun f hf => ?_
        rcases List.mem_append.1 hf with hf | hf
        · obtain ⟨m, -, rfl⟩ := List.mem_map.1 hf
          trivial
        · rcases List.mem_cons.1 hf with rfl | hf
          · exact hcode.2 c.world
          · exact hknown _ _ (hcode.1 c.world) f (hI t f (hrest f hf))
  intro c a c' hI _ hstep
  cases hstep with
  | start hidle hs =>
      refine hput c _ _ _ (hstart _ _ _ _ hs) hI fun f hf => ?_
      obtain ⟨m, -, rfl⟩ := List.mem_map.1 hf
      trivial
  | @fire _ t f rest htop hfire =>
      have hrest : ∀ g ∈ rest, g ∈ c.stack t := fun g hg => htop ▸ List.mem_cons_of_mem _ hg
      cases f with
      | publish m =>
          obtain rfl := Option.some.inj hfire
          refine hput c t _ _ (hgrows.record m _) hI fun f hf => ?_
          rcases List.mem_append.1 hf with hf | hf
          · obtain ⟨h, -, rfl⟩ := List.mem_map.1 hf
            exact hrecord m c.world
          · exact hknown _ _ (hgrows.record m _) f (hI t f (hrest f hf))
      | call h m =>
          obtain rfl := Option.some.inj (Option.ite_none_right_eq_some.1 hfire).2
          exact hexec c t rest _ _ (hgrows.code h m) hI hrest
      | resume code lock =>
          obtain rfl := Option.some.inj hfire
          have hcode : (Frame.resume code lock : Frame H W M L).Known le Recorded c.world :=
            hI t _ (htop ▸ List.mem_cons_self)
          exact hexec c t rest code lock hcode hI hrest

end Machine

end SyncBus
