import Mathlib.Data.Fintype.Basic
import Mathlib.Logic.Function.Basic
import Mathlib.Logic.Relation

set_option autoImplicit false

/-! # Threads, mutexes and synchronous calls

Threads that run handler code instruction by instruction: they lock and unlock mutexes, wait for a
condition, act on the shared world, and make calls whose receivers run before the caller goes on.
Nothing is assumed about which mutexes are held where; `LockOrder`, `Cascades`, `Accounts` and
`Retirement` derive what follows from the code of the handlers alone.

Threads `T`, handlers `H`, worlds `W`, calls `C` and mutexes `L` are arbitrary. -/

namespace LockedBus

variable {T H W C L : Type}

/-- Code of a handler or of one activity of a thread. An action may depend on the thread it runs in;
    what follows it is chosen from the world it started in. -/
inductive Prog (T W C L : Type) where
  | done
  | lock (l : L) (next : Prog T W C L)
  | unlock (l : L) (next : Prog T W C L)
  | await (ready : W → Bool) (next : Prog T W C L)
  | act (action : T → W → W) (next : W → Prog T W C L)
  | call (c : C) (next : Prog T W C L)

namespace Prog

/-- Make the calls one after another, then go on. -/
def calls : List C → Prog T W C L → Prog T W C L
  | [], next => next
  | c :: cs, next => .call c (calls cs next)

/-- Read the world. -/
def read (next : W → Prog T W C L) : Prog T W C L := .act (fun _ w => w) next

/-- Every call the code can make satisfies `P`. -/
def Emits (P : C → Prop) : Prog T W C L → Prop
  | .done => True
  | .lock _ next | .unlock _ next | .await _ next => next.Emits P
  | .act _ next => ∀ w, (next w).Emits P
  | .call c next => P c ∧ next.Emits P

/-- Every action of the code satisfies `P`. -/
def Acts (P : (T → W → W) → Prop) : Prog T W C L → Prop
  | .done => True
  | .lock _ next | .unlock _ next | .await _ next | .call _ next => next.Acts P
  | .act action next => P action ∧ ∀ w, (next w).Acts P

/-- Run the code by itself to its end, with `call` making the calls. -/
@[simp] def exec (t : T) (call : C → W → W) : Prog T W C L → W → W
  | .done, w => w
  | .lock _ next, w | .unlock _ next, w | .await _ next, w => next.exec t call w
  | .act action next, w => (next w).exec t call (action t w)
  | .call c next, w => next.exec t call (call c w)

@[simp] theorem exec_calls (t : T) (call : C → W → W) (cs : List C) (next : Prog T W C L) (w : W) :
    (calls cs next).exec t call w = next.exec t call (cs.foldl (fun w c => call c w) w) := by
  induction cs generalizing w with
  | nil => rfl
  | cons c cs ih => exact ih (call c w)

@[simp] theorem emits_calls {P : C → Prop} {cs : List C} {next : Prog T W C L} :
    (calls cs next).Emits P ↔ (∀ c ∈ cs, P c) ∧ next.Emits P := by
  induction cs with
  | nil => simp [calls]
  | cons c cs ih => simp [calls, Emits, ih, and_assoc]

@[simp] theorem acts_calls {P : (T → W → W) → Prop} {cs : List C} {next : Prog T W C L} :
    (calls cs next).Acts P ↔ next.Acts P := by
  induction cs with
  | nil => rfl
  | cons c cs ih => exact ih

theorem Acts.mono {P Q : (T → W → W) → Prop} (hPQ : ∀ f, P f → Q f) {p : Prog T W C L}
    (h : p.Acts P) : p.Acts Q := by
  induction p with
  | done => trivial
  | lock _ _ ih | unlock _ _ ih | await _ _ ih | call _ _ ih => exact ih h
  | act f _ ih => exact ⟨hPQ f h.1, fun w => ih w (h.2 w)⟩

theorem Emits.mono {P Q : C → Prop} (hPQ : ∀ c, P c → Q c) {p : Prog T W C L} (h : p.Emits P) :
    p.Emits Q := by
  induction p with
  | done => trivial
  | lock _ _ ih | unlock _ _ ih | await _ _ ih => exact ih h
  | act _ _ ih => exact fun w => ih w (h w)
  | call c _ ih => exact ⟨hPQ c h.1, ih h.2⟩

end Prog

/-- A pending activity of a thread. -/
inductive Frame (T H W C L : Type) where
  /-- A receiver that is still to be called. -/
  | invoke (h : H) (c : C)
  /-- Code, with the handler and the call it runs for; `none` is the code of the thread itself. -/
  | run (owner : Option (H × C)) (prog : Prog T W C L)

/-- A system of handlers and threads: who is called for a call, in which order, with which code; how
    a call is recorded in the world; which mutexes are recursive; and what an idle thread may do to
    the world and start. -/
structure System (T H W C L : Type) where
  receivers : C → List H
  code : H → C → Prog T W C L
  record : C → W → W
  recursive : L → Bool
  start : T → W → W → Prog T W C L → Prop

namespace Frame

variable (S : System T H W C L)

/-- What firing a frame does to the world, and what takes its place on the stack. -/
def step (t : T) (w : W) : Frame T H W C L → W × List (Frame T H W C L)
  | .invoke h c => (w, [.run (some (h, c)) (S.code h c)])
  | .run _ .done => (w, [])
  | .run o (.lock _ next) | .run o (.unlock _ next) | .run o (.await _ next) => (w, [.run o next])
  | .run o (.act action next) => (action t w, [.run o (next w)])
  | .run o (.call c next) => (S.record c w, (S.receivers c).map (.invoke · c) ++ [.run o next])

/-- What firing a frame does to the mutexes its thread holds, the last one taken first. -/
def relock [DecidableEq L] (held : List L) : Frame T H W C L → List L
  | .run _ (.lock l _) => l :: held
  | .run _ (.unlock l _) => held.erase l
  | _ => held

/-- The mutex the frame is about to lock. -/
def wants : Frame T H W C L → Option L
  | .run _ (.lock l _) => some l
  | _ => none

/-- The frame does not wait for a condition. -/
def ready (w : W) : Frame T H W C L → Bool
  | .run _ (.await cond _) => cond w
  | _ => true

end Frame

/-- The shared world, the stack of every thread, innermost activity first, and the mutexes it
    holds. -/
structure Config (T H W C L : Type) where
  world : W
  stack : T → List (Frame T H W C L)
  held : T → List L

namespace Config

variable [DecidableEq T]

/-- A new world, and a new stack and new mutexes for one thread. -/
def put (c : Config T H W C L) (t : T) (w : W) (fs : List (Frame T H W C L)) (held : List L) :
    Config T H W C L :=
  ⟨w, Function.update c.stack t fs, Function.update c.held t held⟩

variable (c : Config T H W C L) (t : T) (w : W) (fs : List (Frame T H W C L)) (held : List L)

@[simp] theorem put_world : (c.put t w fs held).world = w := rfl

@[simp] theorem put_stack_self : (c.put t w fs held).stack t = fs := Function.update_self ..

@[simp] theorem put_held_self : (c.put t w fs held).held t = held := Function.update_self ..

variable {t} {t' : T}

@[simp] theorem put_stack_other (h : t' ≠ t) : (c.put t w fs held).stack t' = c.stack t' :=
  Function.update_of_ne h ..

@[simp] theorem put_held_other (h : t' ≠ t) : (c.put t w fs held).held t' = c.held t' :=
  Function.update_of_ne h ..

end Config

namespace System

variable [DecidableEq T] [DecidableEq L] (S : System T H W C L)

/-- Thread `t` can take the mutex: no other thread holds it, and `t` itself does not either unless
    the mutex is recursive. -/
def CanLock (c : Config T H W C L) (t : T) (l : L) : Prop :=
  (∀ t', t' ≠ t → l ∉ c.held t') ∧ (S.recursive l = true ∨ l ∉ c.held t)

instance [Fintype T] (c : Config T H W C L) (t : T) (l : L) : Decidable (S.CanLock c t l) :=
  inferInstanceAs (Decidable (_ ∧ _))

/-- The frame on top of the stack of `t` can fire. -/
def Enabled (c : Config T H W C L) (t : T) (f : Frame T H W C L) : Prop :=
  (∀ l ∈ f.wants, S.CanLock c t l) ∧ f.ready c.world = true

instance [Fintype T] (c : Config T H W C L) (t : T) (f : Frame T H W C L) :
    Decidable (S.Enabled c t f) :=
  inferInstanceAs (Decidable (_ ∧ _))

/-- Fire the frame `f` on top of `rest` in thread `t`. -/
def fire (c : Config T H W C L) (t : T) (f : Frame T H W C L) (rest : List (Frame T H W C L)) :
    Config T H W C L :=
  c.put t (f.step S t c.world).1 ((f.step S t c.world).2 ++ rest) (f.relock (c.held t))

omit [DecidableEq T] [DecidableEq L] in
/-- Make a call from thread `t` while no other thread runs, with nested calls up to the given
    depth. -/
def dispatch (t : T) : Nat → C → W → W
  | 0, _, w => w
  | depth + 1, c, w =>
      (S.receivers c).foldl (fun w h => (S.code h c).exec t (dispatch t depth) w) (S.record c w)

/-- One step of the system, labelled with its thread and the frame it fires (`none` when an idle
    thread starts something). -/
inductive Step : Config T H W C L → T × Option (Frame T H W C L) → Config T H W C L → Prop
  | fire {c : Config T H W C L} {t : T} {f : Frame T H W C L} {rest : List (Frame T H W C L)}
      (htop : c.stack t = f :: rest) (hready : S.Enabled c t f) :
      Step c (t, some f) (S.fire c t f rest)
  | start {c : Config T H W C L} {t : T} {w : W} {p : Prog T W C L} (hidle : c.stack t = [])
      (hstart : S.start t c.world w p) :
      Step c (t, none) (c.put t w [.run none p] (c.held t))

/-- Runs all of whose steps meet the condition `P` on the configuration and the label. -/
def Run (P : Config T H W C L → T × Option (Frame T H W C L) → Prop) :
    Config T H W C L → Config T H W C L → Prop :=
  Relation.ReflTransGen fun c c' => ∃ a, P c a ∧ S.Step c a c'

/-- All threads idle. -/
def idle (w : W) : Config T H W C L := ⟨w, fun _ => [], fun _ => []⟩

variable {S}

/-- **Invariant rule for runs.** -/
theorem Run.invariant {P : Config T H W C L → T × Option (Frame T H W C L) → Prop}
    {I : Config T H W C L → Prop} {c c' : Config T H W C L} (hrun : S.Run P c c') (hinit : I c)
    (hstep : ∀ c a c', I c → P c a → S.Step c a c' → I c') : I c' := by
  induction hrun with
  | refl => exact hinit
  | tail _ hlast ih =>
      obtain ⟨a, hP, hs⟩ := hlast
      exact hstep _ a _ ih hP hs

theorem Run.mono {P Q : Config T H W C L → T × Option (Frame T H W C L) → Prop}
    (hPQ : ∀ c a, P c a → Q c a) {c c' : Config T H W C L} (hrun : S.Run P c c') :
    S.Run Q c c' :=
  Relation.ReflTransGen.mono (fun c _ ⟨a, ha, hstep⟩ => ⟨a, hPQ c a ha, hstep⟩) _ _ hrun

/-- A thread that is not idle fires the frame on top of its stack. -/
theorem Step.eq_fire {c c' : Config T H W C L} {t : T} {a : Option (Frame T H W C L)}
    (hstep : S.Step c (t, a) c') {f : Frame T H W C L} {rest : List (Frame T H W C L)}
    (htop : c.stack t = f :: rest) : a = some f ∧ S.Enabled c t f ∧ c' = S.fire c t f rest := by
  cases hstep with
  | fire htop' hready =>
      obtain ⟨rfl, rfl⟩ := List.cons.inj (htop'.symm.trans htop)
      exact ⟨rfl, hready, rfl⟩
  | start hidle _ => exact nomatch hidle.symm.trans htop

/-- **Frame rule.** A property of frames that firing one passes on to those taking its place, and
    that started code has, holds of every frame on every stack. -/
theorem Step.frames {Φ : T → Frame T H W C L → Prop}
    (hstep : ∀ t w f, Φ t f → ∀ g ∈ (f.step S t w).2, Φ t g)
    (hstart : ∀ t w w' p, S.start t w w' p → Φ t (.run none p)) {c c' : Config T H W C L}
    {a : T × Option (Frame T H W C L)} (hs : S.Step c a c') (hc : ∀ t, ∀ f ∈ c.stack t, Φ t f) :
    ∀ t, ∀ f ∈ c'.stack t, Φ t f := by
  have hput : ∀ t w fs held, (∀ f ∈ fs, Φ t f) → ∀ t', ∀ f ∈ (c.put t w fs held).stack t',
      Φ t' f := by
    intro t w fs held hfs t' f hf
    by_cases ht' : t' = t
    · subst ht'
      rw [Config.put_stack_self] at hf
      exact hfs f hf
    · rw [Config.put_stack_other _ _ _ _ ht'] at hf
      exact hc t' f hf
  cases hs with
  | @fire t f rest htop _ =>
      refine hput t _ _ _ fun g hg => ?_
      rcases List.mem_append.1 hg with hg | hg
      · exact hstep t _ f (hc t f (htop ▸ List.mem_cons_self)) g hg
      · exact hc t g (htop ▸ List.mem_cons_of_mem _ hg)
  | start _ hs =>
      refine hput _ _ _ _ fun f hf => ?_
      rw [List.mem_singleton.1 hf]
      exact hstart _ _ _ _ hs

/-! ## Schedules

An executable scheduler, for looking at single runs. -/

section

variable (S) [Fintype T]

/-- Fire the frame on top of the stack of `t`, if it can. -/
def advance (t : T) (c : Config T H W C L) : Option (Config T H W C L) :=
  match c.stack t with
  | [] => none
  | f :: rest => if S.Enabled c t f then some (S.fire c t f rest) else none

/-- Fire `n` frames of `t`. -/
def advances (t : T) : Nat → Config T H W C L → Option (Config T H W C L)
  | 0, c => some c
  | n + 1, c => (S.advance t c).bind (advances t n)

variable {S}

theorem advances_run {t : T} {n : Nat} {c c' : Config T H W C L}
    (h : S.advances t n c = some c') : S.Run (fun _ _ => True) c c' := by
  induction n generalizing c with
  | zero =>
      obtain rfl := Option.some.inj h
      exact Relation.ReflTransGen.refl
  | succ n ih =>
      obtain ⟨c₁, hfirst, hrest⟩ := Option.bind_eq_some_iff.1 h
      unfold advance at hfirst
      split at hfirst
      · exact nomatch hfirst
      · next htop =>
          obtain ⟨hready, heq⟩ := Option.ite_none_right_eq_some.1 hfirst
          obtain rfl := Option.some.inj heq
          exact .head ⟨_, trivial, .fire htop hready⟩ (ih hrest)

end

end System

end LockedBus
