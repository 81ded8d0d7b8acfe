import Mathlib.Data.List.Basic
import Mathlib.Order.Basic

set_option autoImplicit false

/-! # Synchronous publish/subscribe buses

A bus whose `publish` runs every subscribed handler before it returns: a handler is code that
alternates between a critical section on the shared world and a batch of nested publishes. The
world `W`, the messages `M` and the handlers `H` are arbitrary.

`Bus.dispatch` is the recursive call tree cut off at a depth. When every message is ranked above the
messages its handlers publish, the depth is immaterial above the rank, and `Bus.publish` satisfies
the unbounded equation (`Bus.publish_eq`). Three rules lift facts about single sections to whole
call trees: `Bus.publish_preserves` for invariants, `Bus.publish_keeps` for invariants under which
not every message may be published at any time, and `Bus.publish_related` for runs in lockstep. -/

namespace SyncBus

variable {H W M : Type}

/-! ## Handler code -/

/-- Code of one handler call. A `step` runs a section on the world, publishes the messages the
    section returns one after another, and goes on with the code chosen from the world the section
    started in. -/
inductive Code (W M : Type) where
  | done
  | step (run : W → W × List M) (next : W → Code W M)

namespace Code

/-- Run a handler to its end, with `publish` running the nested publishes. -/
def exec (publish : M → W → W) : Code W M → W → W
  | .done, w => w
  | .step run next, w =>
      (next w).exec publish ((run w).2.foldl (fun w m => publish m w) (run w).1)

/-- Every message the code can publish satisfies `P`. -/
def Emits (P : M → Prop) : Code W M → Prop
  | .done => True
  | .step run next => (∀ w, ∀ m ∈ (run w).2, P m) ∧ ∀ w, (next w).Emits P

/-- Every section of the code keeps `I`. -/
def Preserves (I : W → Prop) : Code W M → Prop
  | .done => True
  | .step run next => (∀ w, I w → I (run w).1) ∧ ∀ w, (next w).Preserves I

/-- Every section of the code moves the world up in `le`. -/
def Grows (le : W → W → Prop) : Code W M → Prop
  | .done => True
  | .step run next => (∀ w, le w (run w).1) ∧ ∀ w, (next w).Grows le

/-- Every section of the code, run where `A` holds, keeps `I` and publishes only messages that `Pre`
    allows where it ends. -/
def Keeps (I : W → Prop) (Pre : M → W → Prop) (A : W → Prop) : Code W M → Prop
  | .done => True
  | .step run next =>
      (∀ w, A w → I w → I (run w).1 ∧ ∀ m ∈ (run w).2, Pre m (run w).1) ∧
        ∀ w, (next w).Keeps I Pre A

/-- Every section of the code, run in two worlds related by `R`, leaves related worlds, publishes
    the same messages and goes on with the same code. -/
def Respects (R : W → W → Prop) : Code W M → Prop
  | .done => True
  | .step run next =>
      ∀ w w', R w w' →
        R (run w).1 (run w').1 ∧ (run w).2 = (run w').2 ∧ next w = next w' ∧ (next w).Respects R

/-- A section followed by nothing. -/
def single (run : W → W × List M) : Code W M := .step run fun _ => .done

@[simp] theorem exec_done (publish : M → W → W) (w : W) :
    (Code.done : Code W M).exec publish w = w := rfl

@[simp] theorem exec_single (publish : M → W → W) (run : W → W × List M) (w : W) :
    (single run).exec publish w = (run w).2.foldl (fun w m => publish m w) (run w).1 := rfl

@[simp] theorem emits_done (P : M → Prop) : (Code.done : Code W M).Emits P := trivial

@[simp] theorem emits_single (P : M → Prop) (run : W → W × List M) :
    (single run).Emits P ↔ ∀ w, ∀ m ∈ (run w).2, P m := by
  simp [single, Emits]

@[simp] theorem preserves_done (I : W → Prop) : (Code.done : Code W M).Preserves I := trivial

@[simp] theorem preserves_single (I : W → Prop) (run : W → W × List M) :
    (single run).Preserves I ↔ ∀ w, I w → I (run w).1 := by
  simp [single, Preserves]

@[simp] theorem grows_done (le : W → W → Prop) : (Code.done : Code W M).Grows le := trivial

@[simp] theorem grows_single (le : W → W → Prop) (run : W → W × List M) :
    (single run).Grows le ↔ ∀ w, le w (run w).1 := by
  simp [single, Grows]

@[simp] theorem keeps_done (I : W → Prop) (Pre : M → W → Prop) (A : W → Prop) :
    (Code.done : Code W M).Keeps I Pre A := trivial

@[simp] theorem keeps_single (I : W → Prop) (Pre : M → W → Prop) (A : W → Prop)
    (run : W → W × List M) :
    (single run).Keeps I Pre A ↔
      ∀ w, A w → I w → I (run w).1 ∧ ∀ m ∈ (run w).2, Pre m (run w).1 := by
  simp [single, Keeps]

@[simp] theorem respects_done (R : W → W → Prop) : (Code.done : Code W M).Respects R := trivial

@[simp] theorem respects_single (R : W → W → Prop) (run : W → W × List M) :
    (single run).Respects R ↔
      ∀ w w', R w w' → R (run w).1 (run w').1 ∧ (run w).2 = (run w').2 := by
  simp [single, Respects]

theorem Emits.mono {P Q : M → Prop} (hPQ : ∀ m, P m → Q m) (c : Code W M) (h : c.Emits P) :
    c.Emits Q := by
  induction c with
  | done => trivial
  | step run next ih => exact ⟨fun w m hm => hPQ m (h.1 w m hm), fun w => ih w (h.2 w)⟩

theorem Emits.and {P Q : M → Prop} {c : Code W M} (hP : c.Emits P) (hQ : c.Emits Q) :
    c.Emits fun m => P m ∧ Q m := by
  induction c with
  | done => trivial
  | step run next ih =>
      exact ⟨fun w m hm => ⟨hP.1 w m hm, hQ.1 w m hm⟩, fun w => ih w (hP.2 w) (hQ.2 w)⟩

theorem Emits.forall {ι : Sort*} {P : ι → M → Prop} {c : Code W M} (h : ∀ i, c.Emits (P i)) :
    c.Emits fun m => ∀ i, P i m := by
  induction c with
  | done => trivial
  | step run next ih =>
      exact ⟨fun w m hm i => (h i).1 w m hm, fun w => ih w fun i => (h i).2 w⟩

/-- Two ways of publishing that agree on what the code publishes run it alike. -/
theorem exec_congr {P : M → Prop} {f g : M → W → W} (hfg : ∀ m, P m → f m = g m) (c : Code W M)
    (hc : c.Emits P) (w : W) : c.exec f w = c.exec g w := by
  induction c generalizing w with
  | done => rfl
  | step run next ih =>
      have hfold : ∀ (ms : List M) (w : W), (∀ m ∈ ms, P m) →
          ms.foldl (fun w m => f m w) w = ms.foldl (fun w m => g m w) w := by
        intro ms
        induction ms with
        | nil => intro w _; rfl
        | cons m rest ihms =>
            intro w hms
            simp only [List.foldl_cons, hfg m (hms m List.mem_cons_self)]
            exact ihms _ fun m' hm' => hms m' (List.mem_cons_of_mem _ hm')
      simp only [exec, hfold _ _ (hc.1 w)]
      exact ih w (hc.2 w) _

theorem Grows.mono {le le' : W → W → Prop} (h : ∀ w w', le w w' → le' w w') (c : Code W M)
    (hc : c.Grows le) : c.Grows le' := by
  induction c with
  | done => trivial
  | step run next ih => exact ⟨fun w => h _ _ (hc.1 w), fun w => ih w (hc.2 w)⟩

theorem Keeps.of_preserves {I C : W → Prop} {P : M → Prop} {c : Code W M} (hP : c.Emits P)
    (hI : c.Preserves I) : c.Keeps I (fun m _ => P m) C := by
  induction c with
  | done => trivial
  | step run next ih =>
      exact ⟨fun w _ hw => ⟨hI.1 w hw, hP.1 w⟩, fun w => ih w (hP.2 w) (hI.2 w)⟩

theorem Keeps.of_not {I : W → Prop} {Pre : M → W → Prop} {A : Prop} (hA : ¬ A) {c : Code W M} :
    c.Keeps I Pre fun _ => A := by
  induction c with
  | done => trivial
  | step run next ih => exact ⟨fun _ h => absurd h hA, ih⟩

section Growing

variable {le : W → W → Prop}

theorem foldl_grows (hrefl : ∀ w, le w w) (htrans : ∀ w₁ w₂ w₃, le w₁ w₂ → le w₂ w₃ → le w₁ w₃)
    {f : M → W → W} (hf : ∀ m w, le w (f m w)) (ms : List M) (w : W) :
    le w (ms.foldl (fun w m => f m w) w) := by
  induction ms generalizing w with
  | nil => exact hrefl w
  | cons m rest ih => exact htrans _ _ _ (hf m w) (ih _)

/-- Code whose sections and nested publishes move up moves up. -/
theorem exec_grows (hrefl : ∀ w, le w w) (htrans : ∀ w₁ w₂ w₃, le w₁ w₂ → le w₂ w₃ → le w₁ w₃)
    {f : M → W → W} (hf : ∀ m w, le w (f m w)) (c : Code W M) (hc : c.Grows le)
    (w : W) : le w (c.exec f w) := by
  induction c generalizing w with
  | done => exact hrefl w
  | step run next ih =>
      -- The rest of the code is chosen in `w` and runs later.
      have hlater : ∀ w', le w' ((next w).exec f w') := fun w' => ih w (hc.2 w) w'
      exact htrans _ _ _ (htrans _ _ _ (hc.1 w) (foldl_grows hrefl htrans hf _ _)) (hlater _)

/-- Code whose sections and allowed nested publishes keep `I` keeps `I`. -/
theorem exec_keeps (hrefl : ∀ w, le w w) (htrans : ∀ w₁ w₂ w₃, le w₁ w₂ → le w₂ w₃ → le w₁ w₃)
    {P : M → Prop} {I : W → Prop} {Pre : M → W → Prop} {A : W → Prop} {f : M → W → W}
    (hup : ∀ m w w', le w w' → Pre m w → Pre m w') (hA : ∀ w w', le w w' → A w → A w')
    (hgrow : ∀ m w, le w (f m w)) (hf : ∀ m, P m → ∀ w, Pre m w → I w → I (f m w))
    (c : Code W M) (hP : c.Emits P) (hle : c.Grows le) (hI : c.Keeps I Pre A) (w : W) (hAw : A w)
    (hw : I w) : I (c.exec f w) := by
  suffices h : ∀ w', le w w' → I w' → I (c.exec f w') from h w (hrefl w) hw
  clear hw
  induction c generalizing w with
  | done => exact fun _ _ hw => hw
  | step run next ih =>
      intro w' hww' hw'
      have hfold : ∀ (ms : List M) (v : W), (∀ m ∈ ms, P m) → (∀ m ∈ ms, Pre m v) → I v →
          I (ms.foldl (fun w m => f m w) v) := by
        intro ms
        induction ms with
        | nil => intro v _ _ hv; exact hv
        | cons m rest ihms =>
            intro v hPms hms hv
            refine ihms _ (fun m' hm' => hPms m' (List.mem_cons_of_mem _ hm')) (fun m' hm' => ?_)
              (hf m (hPms m List.mem_cons_self) v (hms m List.mem_cons_self) hv)
            exact hup m' _ _ (hgrow m v) (hms m' (List.mem_cons_of_mem _ hm'))
      obtain ⟨hrun, hpre⟩ := hI.1 w' (hA _ _ hww' hAw) hw'
      refine ih w' (hP.2 w') (hle.2 w') (hI.2 w') w' (hA _ _ hww' hAw) _ ?_
        (hfold _ _ (hP.1 w') hpre hrun)
      exact htrans _ _ _ (hle.1 w') (foldl_grows hrefl htrans hgrow _ _)

end Growing

/-- Code whose sections and nested publishes run in lockstep runs in lockstep. -/
theorem exec_related {P : M → Prop} {R : W → W → Prop} {f : M → W → W}
    (hf : ∀ m, P m → ∀ w w', R w w' → R (f m w) (f m w')) (c : Code W M) (hc : c.Emits P)
    (hR : c.Respects R) (w w' : W) (hw : R w w') : R (c.exec f w) (c.exec f w') := by
  induction c generalizing w w' with
  | done => exact hw
  | step run next ih =>
      have hfold : ∀ (ms : List M) (w w' : W), (∀ m ∈ ms, P m) → R w w' →
          R (ms.foldl (fun w m => f m w) w) (ms.foldl (fun w m => f m w) w') := by
        intro ms
        induction ms with
        | nil => intro w w' _ hw; exact hw
        | cons m rest ihms =>
            intro w w' hms hw
            exact ihms _ _ (fun m' hm' => hms m' (List.mem_cons_of_mem _ hm'))
              (hf m (hms m List.mem_cons_self) w w' hw)
      obtain ⟨hrun, hout, hnext, hrest⟩ := hR w w' hw
      simp only [exec, ← hout, ← hnext]
      exact ih w (hc.2 w) hrest _ _ (hfold _ _ _ (hc.1 w) hrun)

end Code

/-! ## Buses -/

/-- A bus: who is called for a message, in which order; the code of each handler; how a publish is
    recorded in the world; and a rank that every nested publish decreases. -/
structure Bus (H W M : Type) where
  subscribers : M → List H
  code : H → M → Code W M
  record : M → W → W
  rank : M → Nat
  emits_lower : ∀ h m, (code h m).Emits fun m' => rank m' < rank m

namespace Bus

variable (B : Bus H W M)

/-- Call every subscriber of `m`, one after another. -/
def deliver (publish : M → W → W) (m : M) (w : W) : W :=
  (B.subscribers m).foldl (fun w h => (B.code h m).exec publish w) w

/-- Record and deliver `m`, with nested publishes up to the given depth. -/
def dispatch : Nat → M → W → W
  | 0, _, w => w
  | depth + 1, m, w => B.deliver (dispatch depth) m (B.record m w)

/-- Publish `m` and everything it triggers. -/
def publish (m : M) (w : W) : W := B.dispatch (B.rank m + 1) m w

theorem deliver_congr {f g : M → W → W} (m : M) (hfg : ∀ m', B.rank m' < B.rank m → f m' = g m')
    (w : W) : B.deliver f m w = B.deliver g m w := by
  unfold deliver
  congr 1
  funext w h
  exact Code.exec_congr hfg _ (B.emits_lower h m) w

/-- Above the rank of a message the depth bound is never reached. -/
theorem dispatch_depth (m : M) (d₁ d₂ : Nat) (h₁ : B.rank m < d₁) (h₂ : B.rank m < d₂) :
    B.dispatch d₁ m = B.dispatch d₂ m := by
  induction hr : B.rank m using Nat.strongRecOn generalizing m d₁ d₂ with
  | _ r ih =>
      obtain ⟨d₁, rfl⟩ : ∃ d, d₁ = d + 1 := ⟨d₁ - 1, by omega⟩
      obtain ⟨d₂, rfl⟩ : ∃ d, d₂ = d + 1 := ⟨d₂ - 1, by omega⟩
      funext w
      exact B.deliver_congr m
        (fun m' hm' => ih _ (hr ▸ hm') m' d₁ d₂ (by omega) (by omega) rfl) _

/-- **The unbounded equation of a publish**: record the message, then call its subscribers, each
    nested publish running to its end. -/
theorem publish_eq (m : M) (w : W) : B.publish m w = B.deliver B.publish m (B.record m w) :=
  B.deliver_congr m (fun m' hm' => B.dispatch_depth m' _ _ hm' (Nat.lt_succ_self _)) _

/-! ## Rules for whole call trees -/

/-- Recording and every section of every handler move the world up in the preorder `le`. -/
structure Grows (le : W → W → Prop) : Prop where
  refl : ∀ w, le w w
  trans : ∀ w₁ w₂ w₃, le w₁ w₂ → le w₂ w₃ → le w₁ w₃
  record : ∀ m w, le w (B.record m w)
  code : ∀ h m, (B.code h m).Grows le

variable {B}

/-- A publish moves the world up. -/
theorem Grows.publish {le : W → W → Prop} (hB : B.Grows le) (m : M) (w : W) :
    le w (B.publish m w) := by
  have hdispatch : ∀ d m w, le w (B.dispatch d m w) := by
    intro d
    induction d with
    | zero => exact fun _ w => hB.refl w
    | succ d ih =>
        intro m w
        refine hB.trans _ _ _ (hB.record m w) ?_
        refine List.foldlRecOn (motive := le (B.record m w)) _ _ (hB.refl _) fun w' hw' h _ => ?_
        exact hB.trans _ _ _ hw' (Code.exec_grows hB.refl hB.trans ih _ (hB.code h m) w')
  exact hdispatch _ m w

/-- **Invariant rule with preconditions.** Every message is published where `Pre` allows it, which
    makes `Rec` true of it once it is recorded; both stay true as the world grows. If recording an
    allowed message keeps `I`, and every section of its subscribers keeps `I` where it is recorded
    and publishes only allowed messages, then publishing it keeps `I`. -/
theorem publish_keeps {le : W → W → Prop} (hB : B.Grows le) {I : W → Prop}
    {Pre Rec : M → W → Prop} (hpre : ∀ m w w', le w w' → Pre m w → Pre m w')
    (hrec : ∀ m w w', le w w' → Rec m w → Rec m w')
    (hsection : ∀ m, ∀ h ∈ B.subscribers m, (B.code h m).Keeps I Pre (Rec m))
    (hrecord : ∀ m w, Pre m w → I w → I (B.record m w) ∧ Rec m (B.record m w)) (m : M) (w : W)
    (hm : Pre m w) (hw : I w) : I (B.publish m w) := by
  induction hr : B.rank m using Nat.strongRecOn generalizing m w with
  | _ r ih =>
      rw [publish_eq]
      obtain ⟨hI, hR⟩ := hrecord m w hm hw
      refine (List.foldlRecOn (motive := fun w' => Rec m w' ∧ I w') _ _ ⟨hR, hI⟩
        fun w' hw' h hh => ?_).2
      refine ⟨hrec m _ _ (Code.exec_grows hB.refl hB.trans hB.publish _ (hB.code h m) w') hw'.1, ?_⟩
      exact Code.exec_keeps hB.refl hB.trans hpre (hrec m) hB.publish
        (fun m' hm' w hpre hw => ih _ (hr ▸ hm') m' w hpre hw rfl) _ (B.emits_lower h m)
        (hB.code h m) (hsection m h hh) w' hw'.1 hw'.2

variable (B)

/-- **Invariant rule.** If `C` is closed under what the handlers of its messages publish, and
    recording a message of `C` and every section of its subscribers keep `I`, then so does
    publishing it. -/
theorem publish_preserves {C : M → Prop} {I : W → Prop}
    (hclosed : ∀ m, C m → ∀ h ∈ B.subscribers m, (B.code h m).Emits C)
    (hsection : ∀ m, C m → ∀ h ∈ B.subscribers m, (B.code h m).Preserves I)
    (hrecord : ∀ m, C m → ∀ w, I w → I (B.record m w)) (m : M) (hm : C m) (w : W) (hw : I w) :
    I (B.publish m w) := by
  have hany : ∀ c : Code W M, c.Grows fun _ _ => True := by
    intro c
    induction c with
    | done => trivial
    | step run next ih => exact ⟨fun _ => trivial, ih⟩
  have hB : B.Grows fun _ _ => True :=
    ⟨fun _ => trivial, fun _ _ _ _ _ => trivial, fun _ _ => trivial, fun _ _ => hany _⟩
  have hallowed : ∀ m (w w' : W), True → C m → C m := fun _ _ _ _ h => h
  refine publish_keeps hB hallowed hallowed (fun m h hh => ?_)
    (fun m w hm hw => ⟨hrecord m hm w hw, hm⟩) m w hm hw
  by_cases hC : C m
  · exact Code.Keeps.of_preserves (hclosed m hC h hh) (hsection m hC h hh)
  · exact Code.Keeps.of_not hC

/-- **Lockstep rule.** If recording a message of `C` and every section of its subscribers take
    related worlds to related worlds, with the same publishes, then so does publishing it. -/
theorem publish_related {C : M → Prop} {R : W → W → Prop}
    (hclosed : ∀ m, C m → ∀ h ∈ B.subscribers m, (B.code h m).Emits C)
    (hsection : ∀ m, C m → ∀ h ∈ B.subscribers m, (B.code h m).Respects R)
    (hrecord : ∀ m, C m → ∀ w w', R w w' → R (B.record m w) (B.record m w')) (m : M) (hm : C m)
    (w w' : W) (hw : R w w') : R (B.publish m w) (B.publish m w') := by
  induction hr : B.rank m using Nat.strongRecOn generalizing m w w' with
  | _ r ih =>
      rw [publish_eq, publish_eq]
      have hfold : ∀ (hs : List H), (∀ h ∈ hs, h ∈ B.subscribers m) → ∀ w w', R w w' →
          R (hs.foldl (fun w h => (B.code h m).exec B.publish w) w)
            (hs.foldl (fun w h => (B.code h m).exec B.publish w) w') := by
        intro hs
        induction hs with
        | nil => intro _ w w' hw; exact hw
        | cons h rest ihs =>
            intro hsub w w' hw
            have hh := hsub h List.mem_cons_self
            have hboth : (B.code h m).Emits fun m' => C m' ∧ B.rank m' < r :=
              hr ▸ (hclosed m hm h hh).and (B.emits_lower h m)
            exact ihs (fun h' hh' => hsub h' (List.mem_cons_of_mem _ hh')) _ _
              (Code.exec_related (fun m' hm' w w' hw => ih _ hm'.2 m' hm'.1 w w' hw rfl) _ hboth
                (hsection m hm h hh) w w' hw)
      exact hfold _ (fun _ hh => hh) _ _ (hrecord m hm w w' hw)

/-! ## Single subscribers -/

/-- A view of the world that one subscriber changes and the others leave alone is changed exactly
    once by a delivery. The subscribers may rely on `Good`, which they keep; and nothing is claimed
    once something `Bad` has happened, which stays. -/
theorem foldl_once {X : Type} {f : H → W → W} (view : W → X) (g : X → X) (Good Bad : W → Prop)
    (hkeep : ∀ h w, Good w → Good (f h w)) (hstay : ∀ h w, Bad w → Bad (f h w)) {h₀ : H}
    (hh₀ : ∀ w, Good w → ¬ Bad (f h₀ w) → view (f h₀ w) = g (view w)) {hs : List H}
    (hnodup : hs.Nodup) (hmem : h₀ ∈ hs)
    (hothers : ∀ h ∈ hs, h ≠ h₀ → ∀ w, Good w → ¬ Bad (f h w) → view (f h w) = view w) (w : W)
    (hgood : Good w) (hbad : ¬ Bad (hs.foldl (fun w h => f h w) w)) :
    view (hs.foldl (fun w h => f h w) w) = g (view w) := by
  have hkeeps : ∀ (hs : List H) w, Good w → Good (hs.foldl (fun w h => f h w) w) :=
    fun hs w hw => List.foldlRecOn (motive := Good) hs _ hw fun w hw h _ => hkeep h w hw
  have hstays : ∀ (hs : List H) w, Bad w → Bad (hs.foldl (fun w h => f h w) w) :=
    fun hs w hw => List.foldlRecOn (motive := Bad) hs _ hw fun w hw h _ => hstay h w hw
  have hnone : ∀ (hs' : List H), (∀ h ∈ hs', h ∈ hs) → h₀ ∉ hs' → ∀ w, Good w →
      ¬ Bad (hs'.foldl (fun w h => f h w) w) →
        view (hs'.foldl (fun w h => f h w) w) = view w := by
    intro hs'
    induction hs' with
    | nil => exact fun _ _ _ _ _ => rfl
    | cons h rest ih =>
        intro hsub hnot w hw hbad
        have hne : h ≠ h₀ := fun he => hnot (he ▸ List.mem_cons_self)
        exact (ih (fun h' hh' => hsub h' (List.mem_cons_of_mem _ hh'))
          (fun hm => hnot (List.mem_cons_of_mem _ hm)) _ (hkeep h w hw) hbad).trans
          (hothers h (hsub h List.mem_cons_self) hne w hw fun hb => hbad (hstays rest _ hb))
  obtain ⟨pre, post, rfl⟩ := List.append_of_mem hmem
  have hpost : h₀ ∉ post := (List.nodup_cons.1 (List.nodup_append.1 hnodup).2.1).1
  have hpre : h₀ ∉ pre := fun hm =>
    (List.nodup_append.1 hnodup).2.2 _ hm _ List.mem_cons_self rfl
  rw [List.foldl_append, List.foldl_cons] at hbad ⊢
  have hbefore := hkeeps pre w hgood
  have hmid : ¬ Bad (f h₀ (pre.foldl (fun w h => f h w) w)) := fun hb => hbad (hstays post _ hb)
  rw [hnone post (fun h hm => List.mem_append_right _ (List.mem_cons_of_mem _ hm)) hpost _
      (hkeep h₀ _ hbefore) hbad,
    hh₀ _ hbefore hmid, hnone pre (fun h hm => List.mem_append_left _ hm) hpre w hgood
      fun hb => hmid (hstay h₀ _ hb)]

end Bus

end SyncBus
