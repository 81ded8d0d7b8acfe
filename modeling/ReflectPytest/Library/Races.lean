import ReflectPytest.Library.LockOrder

set_option autoImplicit false

/-! # Data races

What a step reads and writes, told from what it does: it writes a location if the location is
different afterwards, and it reads one if anything else comes out differently for other contents of
it. Two threads race when both are about to access a location and one to write it.

`Guards` checks the code a thread runs along the mutexes it holds: at every action, thread and
mutexes license it. Where all code passes (`Guarded`), every action of every reachable configuration
is licensed by its thread and the mutexes this holds (`Guarded.licensed`). -/

namespace LockedBus

variable {T H W C L X : Type}

/-- The locations of a world: `copy x w v` is `w` with the contents of `x` from `v`. -/
structure Memory (X W : Type) where
  copy : X → W → W → W
  copy_self : ∀ x w, copy x w w = w
  copy_copy : ∀ x w v, copy x (copy x w v) w = w

/-! ## Accesses -/

namespace Memory

variable (M : Memory X W)

/-- The function leaves the location alone. -/
def Keeps (x : X) (g : W → W) : Prop := ∀ w, M.copy x w (g w) = w

/-- What the function does elsewhere does not depend on the location. -/
def Ignores (x : X) (g : W → W) : Prop := ∀ w v, M.copy x (g (M.copy x w v)) (g w) = g w

theorem keeps_id (x : X) : M.Keeps x id := fun w => M.copy_self x w

theorem ignores_id (x : X) : M.Ignores x id := fun w v => M.copy_copy x w v

end Memory

namespace Frame

variable (S : System T H W C L) (M : Memory X W)

/-- Firing the frame changes the location. -/
def Writes (t : T) (f : Frame T H W C L) (x : X) (w : W) : Prop :=
  M.copy x w (f.step S t w).1 ≠ w

/-- With the contents of the location from `v`, firing the frame does something else elsewhere or
    goes on differently. -/
def Notices (t : T) (f : Frame T H W C L) (x : X) (w v : W) : Prop :=
  (f.step S t (M.copy x w v)).2 ≠ (f.step S t w).2 ∨
    M.copy x (f.step S t (M.copy x w v)).1 (f.step S t w).1 ≠ (f.step S t w).1

/-- Other contents of the location would be noticed. -/
def Reads (t : T) (f : Frame T H W C L) (x : X) (w : W) : Prop := ∃ v, f.Notices S M t x w v

end Frame

/-- Thread `t` is about to write the location and another thread to access it. -/
def Races [DecidableEq T] [DecidableEq L] (S : System T H W C L) (M : Memory X W)
    (c : Config T H W C L) (x : X) (t t' : T) : Prop :=
  t ≠ t' ∧ ∃ f rest f' rest', c.stack t = f :: rest ∧ c.stack t' = f' :: rest' ∧
    S.Enabled c t f ∧ S.Enabled c t' f' ∧ f.Writes S M t x c.world ∧
    (f'.Writes S M t' x c.world ∨ f'.Reads S M t' x c.world)

/-! ## Checking code -/

/-- What an action of a thread may do, given the mutexes held. -/
abbrev License (T W C L : Type) : Type := T → List L → (W → W) → (W → Prog T W C L) → Prop

variable (License : License T W C L)

namespace Prog

/-- Every action of the code, entered by the thread with the mutexes `held`, is licensed. -/
def Guards (t : T) : Prog T W C L → List L → Prop
  | .done, _ => True
  | .lock l next, held => Guards t next (l :: held)
  | .unlock _ next, held => Guards t next held.tail
  | .await _ next, held | .call _ next, held => Guards t next held
  | .act action next, held => License t held (action t) next ∧ ∀ w, Guards t (next w) held

variable {License}

@[simp] theorem guards_calls {t : T} {cs : List C} {next : Prog T W C L} {held : List L} :
    (calls cs next).Guards License t held ↔ next.Guards License t held := by
  induction cs with
  | nil => rfl
  | cons c cs ih => exact ih

end Prog

namespace System

variable (S : System T H W C L) (rank : L → Nat) (allows : C → List L → Prop)

/-- Every handler, called as it may be, and every thread act as they are licensed to. -/
structure Guarded : Prop where
  code : ∀ {t h c held}, h ∈ S.receivers c → allows c held → (S.code h c).Guards License t held
  start : ∀ {t w w' p}, S.start t w w' p → p.Guards License t []

/-- The frames of a thread, entered one after another with the mutexes `held`, do. -/
def StackGuards (t : T) : List (Frame T H W C L) → List L → Prop
  | [], _ => True
  | .invoke h c :: rest, held => h ∈ S.receivers c ∧ allows c held ∧ StackGuards t rest held
  | .run _ p :: rest, held => p.Guards License t held ∧
      ∃ held', S.Locks rank allows p held held' ∧ StackGuards t rest held'

variable {License S rank allows}

theorem stackGuards_invokes {t : T} {c : C} {hs : List H} {rest : List (Frame T H W C L)}
    {held : List L} (hhs : ∀ h ∈ hs, h ∈ S.receivers c) (hc : allows c held)
    (hrest : S.StackGuards License rank allows t rest held) :
    S.StackGuards License rank allows t (hs.map (Frame.invoke · c) ++ rest) held := by
  induction hs with
  | nil => exact hrest
  | cons h hs ih =>
      refine ⟨hhs h List.mem_cons_self, hc, ih fun h' hh' => ?_⟩
      exact hhs h' (List.mem_cons_of_mem _ hh')

/-- Only actions access memory, if recording a call does not. -/
theorem act_of_access {M : Memory X W}
    (hrecord : ∀ c x, M.Keeps x (S.record c) ∧ M.Ignores x (S.record c)) {t : T}
    {f : Frame T H W C L} {x : X} {w : W}
    (haccess : f.Writes S M t x w ∨ f.Reads S M t x w) :
    ∃ o action next, f = .run o (.act action next) := by
  have hquiet : ∀ {g : W → W} {fs : List (Frame T H W C L)}, M.Keeps x g → M.Ignores x g →
      (∀ w, f.step S t w = (g w, fs)) → False := by
    intro g fs hkeeps hignores hstep
    rcases haccess with hwrites | ⟨v, hframes | hworld⟩
    · exact hwrites (by rw [hstep]; exact hkeeps w)
    · exact hframes (by rw [hstep, hstep])
    · exact hworld (by rw [hstep, hstep]; exact hignores w v)
  cases f with
  | invoke h c => exact (hquiet (M.keeps_id x) (M.ignores_id x) fun w => rfl).elim
  | run o p =>
      cases p with
      | act action next => exact ⟨o, action, next, rfl⟩
      | call c next => exact (hquiet (hrecord c x).1 (hrecord c x).2 fun w => rfl).elim
      | done | lock _ _ | unlock _ _ | await _ _ =>
          exact (hquiet (M.keeps_id x) (M.ignores_id x) fun w => rfl).elim

variable [DecidableEq L]

/-- Firing a frame of a thread leaves it licensed. -/
theorem Guarded.fire (hG : S.Guarded License allows) (hS : S.Disciplined rank allows) {t : T}
    {w : W} {f : Frame T H W C L} {rest : List (Frame T H W C L)} {held : List L}
    (hstack : S.StackGuards License rank allows t (f :: rest) held) :
    S.StackGuards License rank allows t ((f.step S t w).2 ++ rest) (f.relock held) := by
  cases f with
  | invoke h c =>
      obtain ⟨hh, hc, hrest⟩ := hstack
      exact ⟨hG.code hh hc, held, hS.code hh hc, hrest⟩
  | run o p =>
      obtain ⟨hp, held', hlocks, hrest⟩ := hstack
      cases p with
      | done =>
          obtain rfl : held = held' := hlocks
          exact hrest
      | lock l next => exact ⟨hp, held', hlocks.2, hrest⟩
      | unlock l next =>
          obtain ⟨below, rfl, hnext⟩ := hlocks
          rw [Frame.relock, List.erase_cons_head]
          exact ⟨hp, held', hnext, hrest⟩
      | await ready next => exact ⟨hp, held', hlocks.2, hrest⟩
      | act action next => exact ⟨hp.2 w, held', hlocks w, hrest⟩
      | call c next =>
          simp only [Frame.step, List.append_assoc]
          exact stackGuards_invokes (fun _ => id) hlocks.1 ⟨hp, held', hlocks.2, hrest⟩

variable [DecidableEq T]

/-- **Run lemma.** -/
theorem Guarded.run (hG : S.Guarded License allows) (hS : S.Disciplined rank allows)
    {P : Config T H W C L → T × Option (Frame T H W C L) → Prop} {w : W} {c : Config T H W C L}
    (hrun : S.Run P (idle w) c) :
    S.Orderly rank allows c ∧
      ∀ t, S.StackGuards License rank allows t (c.stack t) (c.held t) := by
  refine hrun.invariant (I := fun c => S.Orderly rank allows c ∧
    ∀ t, S.StackGuards License rank allows t (c.stack t) (c.held t))
    ⟨orderly_idle _ _ _ _, fun _ => trivial⟩ ?_
  rintro c a c' ⟨horderly, hguards⟩ - hstep
  refine ⟨hS.step horderly hstep, fun t' => ?_⟩
  cases hstep with
  | @fire t f rest htop hready =>
      by_cases ht' : t' = t
      · subst ht'
        simp only [System.fire, Config.put_stack_self, Config.put_held_self]
        exact hG.fire hS (htop ▸ hguards t')
      · simp only [System.fire, Config.put_stack_other _ _ _ _ ht',
          Config.put_held_other _ _ _ _ ht']
        exact hguards t'
  | @start t w p hidle hstart =>
      by_cases ht' : t' = t
      · subst ht'
        have hnone : c.held t' = [] := by
          have hstack := horderly.stack t'
          rwa [hidle] at hstack
        rw [Config.put_stack_self, Config.put_held_self, hnone]
        exact ⟨hG.start hstart, [], hS.start hstart, trivial⟩
      · rw [Config.put_stack_other _ _ _ _ ht', Config.put_held_other _ _ _ _ ht']
        exact hguards t'

/-- **Every action is licensed** by its thread and the mutexes this holds. -/
theorem Guarded.licensed (hG : S.Guarded License allows) (hS : S.Disciplined rank allows)
    {P : Config T H W C L → T × Option (Frame T H W C L) → Prop} {w : W} {c : Config T H W C L}
    (hrun : S.Run P (idle w) c) {t : T} {o : Option (H × C)} {action : T → W → W}
    {next : W → Prog T W C L} {rest : List (Frame T H W C L)}
    (htop : c.stack t = .run o (.act action next) :: rest) :
    License t (c.held t) (action t) next := by
  have hstack := (hG.run hS hrun).2 t
  rw [htop] at hstack
  exact hstack.1.1

end System

end LockedBus
