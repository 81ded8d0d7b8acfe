import ReflectPytest.Library.LockedBus

set_option autoImplicit false

/-! # Lock order

Deadlock freedom of a `LockedBus` from an order on its mutexes. `Locks` checks the code of a handler
against the mutexes its caller holds: a mutex is only locked above all mutexes held, unless it is a
recursive one held already, mutexes are unlocked in the reverse order, no mutex is held while
waiting for a condition, and a call is only made while the mutexes held are allowed for it. If every
handler passes for every way it may be called (`Disciplined`), no threads ever wait for each other
in a circle (`Orderly.no_cycle`), and none waits for itself (`Orderly.no_relock`). -/

namespace LockedBus

variable {T H W C L : Type}

/-- The mutexes held when a call is made are all ranked below `bound`. -/
def Below (rank : L → Nat) (bound : Nat) (held : List L) : Prop := ∀ l ∈ held, rank l < bound

@[simp] theorem below_nil {rank : L → Nat} {bound : Nat} : Below rank bound [] := by
  simp [Below]

@[simp] theorem below_cons {rank : L → Nat} {bound : Nat} {l : L} {held : List L} :
    Below rank bound (l :: held) ↔ rank l < bound ∧ Below rank bound held := by
  simp [Below]

theorem Below.mono {rank : L → Nat} {b b' : Nat} {held : List L} (h : Below rank b held)
    (hb : b ≤ b') : Below rank b' held :=
  fun l hl => (h l hl).trans_le hb

namespace System

variable (S : System T H W C L) (rank : L → Nat) (allows : C → List L → Prop)

/-- `l` may be locked by a thread that holds `held`. -/
def MayLock (l : L) (held : List L) : Prop :=
  Below rank (rank l) held ∨ S.recursive l = true ∧ l ∈ held

/-- The code, entered with the mutexes `held`, keeps to the order and leaves `held'`. -/
def Locks : Prog T W C L → List L → List L → Prop
  | .done, held, held' => held = held'
  | .lock l next, held, held' => S.MayLock rank l held ∧ Locks next (l :: held) held'
  | .unlock l next, held, held' => ∃ below, held = l :: below ∧ Locks next below held'
  | .await _ next, held, held' => held = [] ∧ Locks next held held'
  | .act _ next, held, held' => ∀ w, Locks (next w) held held'
  | .call c next, held, held' => allows c held ∧ Locks next held held'

/-- The frames of a thread, entered one after another with the mutexes `held`, keep to the order
    and leave none. -/
def StackLocks : List (Frame T H W C L) → List L → Prop
  | [], held => held = []
  | .invoke h c :: rest, held => h ∈ S.receivers c ∧ allows c held ∧ StackLocks rest held
  | .run _ p :: rest, held => ∃ held', S.Locks rank allows p held held' ∧ StackLocks rest held'

/-- Every handler, called as it may be, and every thread keep to the order. -/
structure Disciplined : Prop where
  code : ∀ {h c held}, h ∈ S.receivers c → allows c held →
    S.Locks rank allows (S.code h c) held held
  start : ∀ {t w w' p}, S.start t w w' p → S.Locks rank allows p [] []

/-- Threads keep to the order, and no two hold the same mutex. -/
structure Orderly (c : Config T H W C L) : Prop where
  stack : ∀ t, S.StackLocks rank allows (c.stack t) (c.held t)
  excludes : ∀ t t' l, t' ≠ t → l ∈ c.held t → l ∉ c.held t'

theorem orderly_idle (w : W) : S.Orderly rank allows (idle w) where
  stack _ := rfl
  excludes _ _ _ _ h := absurd h List.not_mem_nil

variable {S rank allows}

section

variable {l : L} {held held' : List L} {next : Prog T W C L}

@[simp] theorem locks_done : S.Locks rank allows .done held held' ↔ held = held' := Iff.rfl

@[simp] theorem locks_lock : S.Locks rank allows (.lock l next) held held' ↔
    S.MayLock rank l held ∧ S.Locks rank allows next (l :: held) held' := Iff.rfl

@[simp] theorem locks_unlock : S.Locks rank allows (.unlock l next) (l :: held) held' ↔
    S.Locks rank allows next held held' := by
  simp [Locks]

@[simp] theorem locks_await {ready : W → Bool} :
    S.Locks rank allows (.await ready next) held held' ↔
      held = [] ∧ S.Locks rank allows next held held' := Iff.rfl

@[simp] theorem locks_act {action : T → W → W} {next : W → Prog T W C L} :
    S.Locks rank allows (.act action next) held held' ↔
      ∀ w, S.Locks rank allows (next w) held held' := Iff.rfl

@[simp] theorem locks_call {c : C} : S.Locks rank allows (.call c next) held held' ↔
    allows c held ∧ S.Locks rank allows next held held' := Iff.rfl

@[simp] theorem locks_calls {cs : List C} : S.Locks rank allows (.calls cs next) held held' ↔
    (∀ c ∈ cs, allows c held) ∧ S.Locks rank allows next held held' := by
  induction cs with
  | nil => simp [Prog.calls]
  | cons c cs ih => simp [Prog.calls, ih, and_assoc]

end

theorem stackLocks_invokes {c : C} {hs : List H} {rest : List (Frame T H W C L)} {held : List L}
    (hhs : ∀ h ∈ hs, h ∈ S.receivers c) (hc : allows c held)
    (hrest : S.StackLocks rank allows rest held) :
    S.StackLocks rank allows (hs.map (Frame.invoke · c) ++ rest) held := by
  induction hs with
  | nil => exact hrest
  | cons h hs ih =>
      refine ⟨hhs h List.mem_cons_self, hc, ih fun h' hh' => ?_⟩
      exact hhs h' (List.mem_cons_of_mem _ hh')

section

variable [DecidableEq L]

/-- Firing a frame keeps its thread to the order. -/
theorem Disciplined.fire (hS : S.Disciplined rank allows) {t : T} {w : W} {f : Frame T H W C L}
    {rest : List (Frame T H W C L)} {held : List L}
    (hstack : S.StackLocks rank allows (f :: rest) held) :
    S.StackLocks rank allows ((f.step S t w).2 ++ rest) (f.relock held) := by
  cases f with
  | invoke h c =>
      obtain ⟨hh, hc, hrest⟩ := hstack
      exact ⟨held, hS.code hh hc, hrest⟩
  | run o p =>
      obtain ⟨held', hp, hrest⟩ := hstack
      cases p with
      | done =>
          obtain rfl : held = held' := hp
          exact hrest
      | lock l next => exact ⟨held', hp.2, hrest⟩
      | unlock l next =>
          obtain ⟨below, rfl, hnext⟩ := hp
          refine ⟨held', ?_, hrest⟩
          rwa [Frame.relock, List.erase_cons_head]
      | await ready next => exact ⟨held', hp.2, hrest⟩
      | act action next => exact ⟨held', hp w, hrest⟩
      | call c next =>
          simp only [Frame.step, List.append_assoc]
          exact stackLocks_invokes (fun _ => id) hp.1 ⟨held', hp.2, hrest⟩

theorem mem_of_mem_relock {f : Frame T H W C L} {held : List L} {l : L}
    (hl : l ∈ f.relock held) : f.wants = some l ∨ l ∈ held := by
  cases f with
  | invoke h c => exact .inr hl
  | run o p =>
      cases p with
      | lock l' next =>
          rcases List.mem_cons.1 hl with rfl | hl
          · exact .inl rfl
          · exact .inr hl
      | unlock l' next => exact .inr (List.mem_of_mem_erase hl)
      | done | await _ _ | act _ _ | call _ _ => exact .inr hl

variable [DecidableEq T]

/-- **Step lemma.** -/
theorem Disciplined.step (hS : S.Disciplined rank allows) {c c' : Config T H W C L}
    {a : T × Option (Frame T H W C L)} (hc : S.Orderly rank allows c) (hstep : S.Step c a c') :
    S.Orderly rank allows c' := by
  cases hstep with
  | @fire t f rest htop hready =>
      refine ⟨fun t' => ?_, fun t₁ t₂ l hne hl hl' => ?_⟩
      · by_cases ht' : t' = t
        · subst ht'
          simp only [System.fire, Config.put_stack_self, Config.put_held_self]
          exact hS.fire (htop ▸ hc.stack t')
        · simp only [System.fire, Config.put_stack_other _ _ _ _ ht',
            Config.put_held_other _ _ _ _ ht']
          exact hc.stack t'
      · -- What `t` holds now it has just taken, while it was free, or held before.
        have hbefore : ∀ t' l, l ∈ (S.fire c t f rest).held t' →
            t' = t ∧ f.wants = some l ∨ l ∈ c.held t' := by
          intro t' l hl
          by_cases ht' : t' = t
          · subst ht'
            rw [System.fire, Config.put_held_self] at hl
            exact (mem_of_mem_relock hl).imp_left fun h => ⟨rfl, h⟩
          · rw [System.fire, Config.put_held_other _ _ _ _ ht'] at hl
            exact .inr hl
        rcases hbefore t₁ l hl with ⟨rfl, hw⟩ | h₁ <;> rcases hbefore t₂ l hl' with ⟨rfl, hw'⟩ | h₂
        · exact hne rfl
        · exact (hready.1 l hw).1 t₂ hne h₂
        · exact (hready.1 l hw').1 t₁ hne.symm h₁
        · exact hc.excludes t₁ t₂ l hne h₁ h₂
  | @start t w p hidle hstart =>
      have hnone : c.held t = [] := by
        have hstack := hc.stack t
        rwa [hidle] at hstack
      refine ⟨fun t' => ?_, fun t₁ t₂ l hne hl hl' => ?_⟩
      · by_cases ht' : t' = t
        · subst ht'
          rw [Config.put_stack_self, Config.put_held_self, hnone]
          exact ⟨[], hS.start hstart, rfl⟩
        · rw [Config.put_stack_other _ _ _ _ ht', Config.put_held_other _ _ _ _ ht']
          exact hc.stack t'
      · have hsame : (c.put t w [.run none p] (c.held t)).held = c.held :=
          Function.update_eq_self t c.held
        rw [hsame] at hl hl'
        exact hc.excludes t₁ t₂ l hne hl hl'

/-- **Run lemma.** -/
theorem Disciplined.run (hS : S.Disciplined rank allows)
    {P : Config T H W C L → T × Option (Frame T H W C L) → Prop} {c c' : Config T H W C L}
    (hc : S.Orderly rank allows c) (hrun : S.Run P c c') : S.Orderly rank allows c' :=
  hrun.invariant hc fun _ _ _ hc _ hstep => hS.step hc hstep

end

/-! ## Waiting -/

/-- The mutex a thread is trying to lock. -/
def wants (c : Config T H W C L) (t : T) : Option L := (c.stack t).head?.bind Frame.wants

/-- Thread `t` is trying to lock a mutex that `t'` holds. -/
def Waits (c : Config T H W C L) (t t' : T) : Prop :=
  ∃ l, wants c t = some l ∧ t' ≠ t ∧ l ∈ c.held t'

theorem Orderly.mayLock {c : Config T H W C L} (hc : S.Orderly rank allows c) {t : T} {l : L}
    (hl : wants c t = some l) : S.MayLock rank l (c.held t) := by
  have hstack := hc.stack t
  unfold wants at hl
  cases hs : c.stack t with
  | nil =>
      rw [hs] at hl
      exact nomatch hl
  | cons f rest =>
      rw [hs] at hl hstack
      cases f with
      | invoke h c => exact nomatch hl
      | run o p =>
          cases p with
          | lock l' next =>
              obtain rfl : l' = l := Option.some.inj hl
              obtain ⟨held', hp, -⟩ := hstack
              exact hp.1
          | done | unlock _ _ | await _ _ | act _ _ | call _ _ => exact nomatch hl

/-- No thread tries to lock a mutex it holds, unless it is recursive. -/
theorem Orderly.no_relock {c : Config T H W C L} (hc : S.Orderly rank allows c) {t : T} {l : L}
    (hl : wants c t = some l) (hrec : S.recursive l = false) : l ∉ c.held t := by
  intro hheld
  rcases hc.mayLock hl with hbelow | ⟨hrec', -⟩
  · exact lt_irrefl _ (hbelow l hheld)
  · exact nomatch hrec.symm.trans hrec'

/-- A thread that waits for another one holds only mutexes below the one it waits for. -/
theorem Orderly.below {c : Config T H W C L} (hc : S.Orderly rank allows c) {t t' : T} {l : L}
    (hl : wants c t = some l) (hne : t' ≠ t) (hheld : l ∈ c.held t') :
    Below rank (rank l) (c.held t) :=
  (hc.mayLock hl).resolve_right fun h => hc.excludes t t' l hne h.2 hheld

/-- **No threads wait for each other in a circle.** -/
theorem Orderly.no_cycle {c : Config T H W C L} (hc : S.Orderly rank allows c) (t : T) :
    ¬ Relation.TransGen (Waits c) t t := by
  -- Along a chain of waiting threads the mutexes waited for get higher.
  have hchain : ∀ {u}, Relation.TransGen (Waits c) t u → ∃ l, wants c t = some l ∧
      (∃ t', t' ≠ t ∧ l ∈ c.held t') ∧ ∃ l' ∈ c.held u, rank l ≤ rank l' := by
    intro u hu
    induction hu with
    | single h =>
        obtain ⟨l, hl, hne, hheld⟩ := h
        exact ⟨l, hl, ⟨_, hne, hheld⟩, l, hheld, le_rfl⟩
    | tail _ h ih =>
        obtain ⟨l, hl, hother, l', hl', hle⟩ := ih
        obtain ⟨l₂, hl₂, hne, hheld⟩ := h
        exact ⟨l, hl, hother, l₂, hheld, hle.trans (hc.below hl₂ hne hheld l' hl').le⟩
  intro hcycle
  obtain ⟨l, hl, ⟨t', hne, hheld⟩, l', hl', hle⟩ := hchain hcycle
  exact absurd (hc.below hl hne hheld l' hl') (not_lt.2 hle)

end System

end LockedBus
