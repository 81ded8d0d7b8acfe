import ReflectPytest.Library.Progress

set_option autoImplicit false

/-! # Retirement

Handlers of a `LockedBus` that are retired one by one while threads still make calls. The bus goes
on calling a retired handler, so what keeps one from being called is only when it is retired: not
while a call that has been made has yet to get to it, and never followed by a call that has it among
its receivers. A step does no harm if and only if it is `Timely` in this sense
(`Complete.step_iff`), and a harmful one leads to a retired handler being called by moves the
scheduler cannot put off (`Complete.invoked`). -/

namespace LockedBus

open LockedBus.System

variable {T H W C L : Type}

/-- Which handlers are retired in a world, and the action that retires one. -/
structure Lifetimes (T H W : Type) where
  gone : W → H → Prop
  retire : H → T → W → W
  gone_retire : ∀ h t w h', gone (retire h t w) h' ↔ h' = h ∨ gone w h'

namespace Lifetimes

variable (R : Lifetimes T H W) (S : System T H W C L)

/-- The action retires a handler, or none. -/
def Regular (action : T → W → W) : Prop :=
  (∃ h, action = R.retire h) ∨ ∀ t w h, R.gone (action t w) h ↔ R.gone w h

/-- The frame retires handlers by `retire` only. -/
def RegularFrame : Frame T H W C L → Prop
  | .invoke _ _ => True
  | .run _ p => p.Acts R.Regular

/-- All code retires handlers by `retire` only. -/
structure Complete : Prop where
  code : ∀ h c, (S.code h c).Acts R.Regular
  record : ∀ c w h, R.gone (S.record c w) h ↔ R.gone w h
  start : ∀ {t w w' p}, S.start t w w' p → (∀ h, R.gone w' h ↔ R.gone w h) ∧ p.Acts R.Regular

/-- A call has been made that has yet to get to the handler. -/
def Pending (c : Config T H W C L) (h : H) : Prop := ∃ t call, .invoke h call ∈ c.stack t

/-- No call made will get to a retired handler. -/
def Spares (c : Config T H W C L) : Prop := ∀ h, Pending c h → ¬ R.gone c.world h

/-- No call has a retired receiver, and no handler is retired while one is on its way to it. -/
structure Timely (c : Config T H W C L) (a : T × Option (Frame T H W C L)) : Prop where
  calls : ∀ o call next, a.2 = some (.run o (.call call next)) →
    ∀ h ∈ S.receivers call, ¬ R.gone c.world h
  retires : ∀ o h next, a.2 = some (.run o (.act (R.retire h) next)) → ¬ Pending c h

variable {R S}

/-! ## One step -/

/-- What firing a frame does to the lifetimes. -/
theorem Complete.fire (hR : R.Complete S) (t : T) (w : W) {f : Frame T H W C L}
    (hf : R.RegularFrame f) :
    ((∃ o h next, f = .run o (.act (R.retire h) next) ∧
        ∀ h', R.gone (f.step S t w).1 h' ↔ h' = h ∨ R.gone w h') ∨
      ∀ h, R.gone (f.step S t w).1 h ↔ R.gone w h) ∧
    ∀ g ∈ (f.step S t w).2, R.RegularFrame g := by
  cases f with
  | invoke h c =>
      refine ⟨.inr fun _ => Iff.rfl, fun g hg => ?_⟩
      rw [List.mem_singleton.1 hg]
      exact hR.code h c
  | run o p =>
      cases p with
      | done => exact ⟨.inr fun _ => Iff.rfl, nofun⟩
      | lock l next | unlock l next | await ready next =>
          refine ⟨.inr fun _ => Iff.rfl, fun g hg => ?_⟩
          rw [List.mem_singleton.1 hg]
          exact hf
      | act action next =>
          refine ⟨?_, fun g hg => ?_⟩
          · rcases hf.1 with ⟨h, rfl⟩ | hkeeps
            · exact .inl ⟨o, h, next, rfl, R.gone_retire h t w⟩
            · exact .inr (hkeeps t w)
          · rw [List.mem_singleton.1 hg]
            exact hf.2 w
      | call c next =>
          refine ⟨.inr (hR.record c w), fun g hg => ?_⟩
          rcases List.mem_append.1 hg with hg | hg
          · obtain ⟨h, -, rfl⟩ := List.mem_map.1 hg
            trivial
          · rw [List.mem_singleton.1 hg]
            exact hf

/-- Frames that are to fire put calls on their way only where they make one. -/
theorem mem_step_invoke {t : T} {w : W} {f : Frame T H W C L} {h : H} {call : C}
    (hmem : .invoke h call ∈ (f.step S t w).2) :
    ∃ o next, f = .run o (.call call next) ∧ h ∈ S.receivers call := by
  cases f with
  | invoke h' c => exact nomatch List.mem_singleton.1 hmem
  | run o p =>
      cases p with
      | done => exact nomatch hmem
      | lock _ _ | unlock _ _ | await _ _ | act _ _ => exact nomatch List.mem_singleton.1 hmem
      | call c next =>
          rcases List.mem_append.1 hmem with hmem | hmem
          · obtain ⟨h', hh', heq⟩ := List.mem_map.1 hmem
            obtain ⟨rfl, rfl⟩ := Frame.invoke.inj heq
            exact ⟨o, next, rfl, hh'⟩
          · exact nomatch List.mem_singleton.1 hmem

variable [DecidableEq T] [DecidableEq L]

section

variable {c : Config T H W C L} {t : T} {f : Frame T H W C L} {rest : List (Frame T H W C L)}
  {h : H}

theorem pending_of_fire (htop : c.stack t = f :: rest) (hpending : Pending (S.fire c t f rest) h) :
    Pending c h ∨ ∃ o call next, f = .run o (.call call next) ∧ h ∈ S.receivers call := by
  obtain ⟨t', call, hmem⟩ := hpending
  by_cases ht : t' = t
  · subst ht
    rw [System.fire, Config.put_stack_self] at hmem
    rcases List.mem_append.1 hmem with hmem | hmem
    · obtain ⟨o, next, hf, hh⟩ := mem_step_invoke hmem
      exact .inr ⟨o, call, next, hf, hh⟩
    · exact .inl ⟨t', call, htop ▸ List.mem_cons_of_mem _ hmem⟩
  · rw [System.fire, Config.put_stack_other _ _ _ _ ht] at hmem
    exact .inl ⟨t', call, hmem⟩

theorem Pending.fire (hpending : Pending c h) (htop : c.stack t = f :: rest)
    (hf : ∀ call, f ≠ .invoke h call) : Pending (S.fire c t f rest) h := by
  obtain ⟨t', call, hmem⟩ := hpending
  refine ⟨t', call, ?_⟩
  by_cases ht : t' = t
  · subst ht
    rw [htop] at hmem
    rw [System.fire, Config.put_stack_self]
    refine List.mem_append_right _ ((List.mem_cons.1 hmem).resolve_left ?_)
    exact fun heq => hf call heq.symm
  · rw [System.fire, Config.put_stack_other _ _ _ _ ht]
    exact hmem

theorem pending_call {o : Option (H × C)} {call : C} {next : Prog T W C L}
    (hh : h ∈ S.receivers call) : Pending (S.fire c t (.run o (.call call next)) rest) h := by
  refine ⟨t, call, ?_⟩
  rw [System.fire, Config.put_stack_self]
  refine List.mem_append_left _ (List.mem_append_left _ ?_)
  exact List.mem_map.2 ⟨h, hh, rfl⟩

omit [DecidableEq L] in
theorem pending_of_start {w : W} {p : Prog T W C L} {held : List L}
    (hpending : Pending (c.put t w [.run none p] held) h) : Pending c h := by
  obtain ⟨t', call, hmem⟩ := hpending
  by_cases ht : t' = t
  · subst ht
    rw [Config.put_stack_self] at hmem
    exact nomatch List.mem_singleton.1 hmem
  · rw [Config.put_stack_other _ _ _ _ ht] at hmem
    exact ⟨t', call, hmem⟩

end

variable (R) in
/-- All frames on all stacks retire handlers by `retire` only. -/
def RegularConfig (c : Config T H W C L) : Prop := ∀ t, ∀ f ∈ c.stack t, R.RegularFrame f

theorem Complete.regular (hR : R.Complete S) {c c' : Config T H W C L}
    {a : T × Option (Frame T H W C L)} (hc : R.RegularConfig c) (hstep : S.Step c a c') :
    R.RegularConfig c' :=
  hstep.frames (fun t w _ hf => (hR.fire t w hf).2) (fun _ _ _ _ hstart => (hR.start hstart).2) hc

/-- **Step lemma.** A step keeps calls off retired handlers if and only if it is timely. -/
theorem Complete.step_iff (hR : R.Complete S) {c c' : Config T H W C L}
    {a : T × Option (Frame T H W C L)} (hregular : R.RegularConfig c) (hc : R.Spares c)
    (hstep : S.Step c a c') : R.Spares c' ↔ R.Timely S c a := by
  cases hstep with
  | @fire t f rest htop hready =>
      constructor
      · intro hspares
        refine ⟨fun o call next ha h hh hgone => ?_, fun o h next ha hpending => ?_⟩
        · -- The call is on its way to a handler that was retired before.
          obtain rfl := Option.some.inj ha
          exact hspares h (pending_call hh) ((hR.record call c.world h).2 hgone)
        · -- The call that was on its way still is, and its handler has just been retired.
          obtain rfl := Option.some.inj ha
          refine hspares h (hpending.fire htop nofun) ?_
          exact (R.gone_retire h t c.world h).2 (.inl rfl)
      · intro htimely h hpending hgone
        have hf := hregular t f (htop ▸ List.mem_cons_self)
        have hbefore : ¬ R.gone c.world h := by
          rcases pending_of_fire htop hpending with hpending | ⟨o, call, next, rfl, hh⟩
          · exact hc h hpending
          · exact htimely.calls o call next rfl h hh
        rcases (hR.fire t c.world hf).1 with ⟨o, h', next, rfl, hiff⟩ | hiff
        · rcases (hiff h).1 hgone with rfl | hgone
          · -- The handler that is retired has no call on its way.
            rcases pending_of_fire htop hpending with hpending | ⟨_, _, _, heq, -⟩
            · exact htimely.retires o h next rfl hpending
            · exact nomatch heq
          · exact hbefore hgone
        · exact hbefore ((hiff h).1 hgone)
  | start hidle hstart =>
      refine iff_of_true (fun h hpending hgone => ?_) ⟨nofun, nofun⟩
      exact hc h (pending_of_start hpending) (((hR.start hstart).1 h).1 hgone)

/-- A retired handler stays retired. -/
theorem Complete.gone_step (hR : R.Complete S) {c c' : Config T H W C L}
    {a : T × Option (Frame T H W C L)} (hregular : R.RegularConfig c) (hstep : S.Step c a c')
    {h : H} (hgone : R.gone c.world h) : R.gone c'.world h := by
  cases hstep with
  | @fire t f rest htop hready =>
      have hf := hregular t f (htop ▸ List.mem_cons_self)
      rcases (hR.fire t c.world hf).1 with ⟨_, _, _, _, hiff⟩ | hiff
      · exact (hiff h).2 (.inr hgone)
      · exact (hiff h).2 hgone
  | start hidle hstart => exact ((hR.start hstart).1 h).2 hgone

/-! ## Runs -/

/-- **Run lemma.** In a run of timely steps no call gets to a retired handler. -/
theorem Complete.run_idle (hR : R.Complete S) {w : W} {c : Config T H W C L}
    (hrun : S.Run (R.Timely S) (idle w) c) : R.Spares c := by
  have hinit : R.RegularConfig (idle w : Config T H W C L) ∧
      R.Spares (idle w : Config T H W C L) := by
    refine ⟨fun _ _ hf => absurd hf List.not_mem_nil, ?_⟩
    rintro h ⟨t, call, hmem⟩
    exact absurd hmem List.not_mem_nil
  refine (hrun.invariant (I := fun c => R.RegularConfig c ∧ R.Spares c) hinit ?_).2
  exact fun c a c' hc ha hstep =>
    ⟨hR.regular hc.1 hstep, (hR.step_iff hc.1 hc.2 hstep).2 ha⟩

omit [DecidableEq T] [DecidableEq L] in
theorem Spares.not_gone {c : Config T H W C L} (hc : R.Spares c) {t : T} {h : H} {call : C}
    {rest : List (Frame T H W C L)} (htop : c.stack t = .invoke h call :: rest) :
    ¬ R.gone c.world h :=
  hc h ⟨t, call, htop ▸ List.mem_cons_self⟩

/-! ## A call on its way arrives

The other direction needs that a call that has been made does get to its receivers: threads keep to
a lock order, cascades end, and no handler waits for a condition. -/

section

variable {rank : L → Nat} {allows : C → List L → Prop} {callRank : C → Nat}

variable (R S rank allows callRank) in
/-- What every configuration has that is reached from an idle one. -/
structure Governed (c : Config T H W C L) : Prop where
  regular : R.RegularConfig c
  orderly : S.Orderly rank allows c
  nested : ∀ t, Nested callRank (c.stack t)
  callees : ∀ t, ∀ f ∈ c.stack t, f.CalleeNeverAwaits

omit [DecidableEq T] [DecidableEq L] in
theorem governed_idle (w : W) : R.Governed S rank allows callRank (idle w) where
  regular _ _ hf := absurd hf List.not_mem_nil
  orderly := orderly_idle ..
  nested _ := trivial
  callees _ _ hf := absurd hf List.not_mem_nil

omit [DecidableEq T] [DecidableEq L] in
/-- Above a call on its way there are only handlers. -/
theorem neverAwaits_above {above rest : List (Frame T H W C L)} {f : Frame T H W C L}
    (hnested : Nested callRank (above ++ f :: rest))
    (hcallees : ∀ g ∈ above, g.CalleeNeverAwaits) : ∀ g ∈ above, g.NeverAwaits := by
  induction above with
  | nil => exact nofun
  | cons g above ih =>
      have htail : Nested callRank (above ++ f :: rest) ∧ g.NeverAwaits := by
        have hg := hcallees g List.mem_cons_self
        cases g with
        | invoke h c => exact ⟨hnested.2, trivial⟩
        | run o p =>
            cases o with
            | none => exact nomatch (List.append_eq_nil_iff.1 hnested).2
            | some _ => exact ⟨hnested.2.2, hg⟩
      intro g' hg'
      rcases List.mem_cons.1 hg' with rfl | hg'
      · exact htail.2
      · exact ih htail.1 (fun g hg => hcallees g (List.mem_cons_of_mem _ hg)) g' hg'

/-- A thread the scheduler must not put off: it holds a mutex, or it still has a handler to call. -/
def Busy (c : Config T H W C L) (t : T) : Prop :=
  c.held t ≠ [] ∨ ∃ h call, .invoke h call ∈ c.stack t

variable (hR : R.Complete S) (hS : S.Disciplined rank allows) (hdescends : S.Descends callRank)
  (hcode : ∀ h c, (S.code h c).NeverAwaits)

include hR hS hdescends hcode

theorem Governed.step {c c' : Config T H W C L} {a : T × Option (Frame T H W C L)}
    (hc : R.Governed S rank allows callRank c) (hstep : S.Step c a c') :
    R.Governed S rank allows callRank c' where
  regular := hR.regular hc.regular hstep
  orderly := hS.step hc.orderly hstep
  nested := hdescends.run (P := fun _ _ => True) (.single ⟨a, trivial, hstep⟩) hc.nested
  callees := hstep.frames (fun _ _ _ hf => calleeNeverAwaits_step hcode hf)
    (fun _ _ _ _ _ => trivial) hc.callees

theorem Governed.run {P : Config T H W C L → T × Option (Frame T H W C L) → Prop}
    {c c' : Config T H W C L} (hc : R.Governed S rank allows callRank c) (hrun : S.Run P c c') :
    R.Governed S rank allows callRank c' :=
  hrun.invariant hc fun _ _ _ hc _ hstep => hc.step hR hS hdescends hcode hstep

/-- A call on its way to a retired handler gets there, by moves of busy threads only. -/
theorem Complete.invoked [Finite T] {bound : Nat} (hbound : ∀ l, rank l < bound)
    {c : Config T H W C L} (hc : R.Governed S rank allows callRank c) {h : H}
    (hpending : Pending c h) (hgone : R.gone c.world h) :
    ∃ c' t call rest, S.Run (fun c a => a.2 ≠ none ∧ Busy c a.1) c c' ∧
      c'.stack t = .invoke h call :: rest ∧ R.gone c'.world h := by
  obtain ⟨t, call, hmem⟩ := hpending
  obtain ⟨above, rest, hstack⟩ := List.mem_iff_append.1 hmem
  have habove : ∀ f ∈ above, f.NeverAwaits := by
    refine neverAwaits_above (hstack ▸ hc.nested t) fun g hg => ?_
    exact hc.callees t g (hstack ▸ List.mem_append_left _ hg)
  obtain ⟨c', hrun, htop⟩ := hS.surfaces hdescends hbound hcode t (.invoke h call :: rest) c
    hc.orderly above hstack habove
  have hgone' : R.Governed S rank allows callRank c' ∧ R.gone c'.world h := by
    refine hrun.invariant (I := fun c => R.Governed S rank allows callRank c ∧ R.gone c.world h)
      ⟨hc, hgone⟩ fun c a c' hc _ hstep => ?_
    exact ⟨hc.1.step hR hS hdescends hcode hstep, hR.gone_step hc.1.regular hstep hc.2⟩
  refine ⟨c', t, call, rest, hrun.mono fun c a ha => ⟨ha.1, ?_⟩, htop, hgone'.2⟩
  rcases ha.2 with ⟨heq, hsuffix⟩ | hheld
  · exact .inr ⟨h, call, heq ▸ hsuffix.subset List.mem_cons_self⟩
  · exact .inl hheld

/-- **Exactness.** If no retired handler is ever called although the scheduler puts off no busy
    thread, all steps are timely. -/
theorem Complete.timely_of_never_invoked [Finite T] {bound : Nat} (hbound : ∀ l, rank l < bound)
    {Q : Config T H W C L → T × Option (Frame T H W C L) → Prop}
    (hQ : ∀ c t f, Busy c t → Q c (t, some f)) {w : W}
    (hnever : ∀ c, S.Run Q (idle w) c →
      ∀ t h call rest, c.stack t = .invoke h call :: rest → ¬ R.gone c.world h) :
    ∀ c a c', S.Run Q (idle w) c → Q c a → S.Step c a c' → R.Timely S c a := by
  have hgoverned : ∀ c, S.Run Q (idle w) c → R.Governed S rank allows callRank c :=
    fun c hrun => (governed_idle w).run hR hS hdescends hcode hrun
  -- Were a call on its way to a retired handler, the scheduler would have to let it get there.
  have hspares : ∀ c, S.Run Q (idle w) c → R.Spares c := by
    intro c hrun h hpending hgone
    obtain ⟨c', t, call, rest, hmoves, htop, hgone'⟩ :=
      hR.invoked hS hdescends hcode hbound (hgoverned c hrun) hpending hgone
    refine hnever c' (hrun.trans (hmoves.mono fun c a ha => ?_)) t h call rest htop hgone'
    obtain ⟨t', f⟩ := a
    cases f with
    | none => exact absurd rfl ha.1
    | some f => exact hQ c t' f ha.2
  intro c a c' hrun ha hstep
  refine (hR.step_iff (hgoverned c hrun).regular (hspares c hrun) hstep).1 ?_
  exact hspares c' (hrun.tail ⟨a, ha, hstep⟩)

end

end Lifetimes

end LockedBus
