import ReflectPytest.Concurrency.AtRest
import ReflectPytest.Concurrency.StateRequests

set_option autoImplicit false

/-! # A motor sequence on its way

From the datagram to the end of its last step: the bridge publishes a sequence, `MotorService` takes
it from the thread of the bridge and announces it, ticks carry it out. As long as nothing else
commands the motor, each step of the threads takes the sequence to its next stage or leaves it where
it is (`AtStage.step`), and a reply that the system is Ready is only made before the first stage or
when the motor is through (`Executed.replies_step`). -/

namespace ReflectPytest

open SyncBus

variable {F : Type} [FloatOps F]

/-- A tick starts nothing. -/
theorem MotorService.onPhysicsTick_active {s : MotorService} {tick : PhysicsTickPayload}
    (h : (s.onPhysicsTick tick).1.active = true) : s.active = true := by
  rcases s.onPhysicsTick_cases tick with ⟨-, he⟩ | ⟨hcharges, -⟩ | ⟨hcharges, -⟩
  · rwa [he] at h
  · exact (Bool.and_eq_true_iff.1 hcharges).1
  · exact (Bool.and_eq_true_iff.1 hcharges).1

namespace App

/-! ## Stages -/

/-- A frame that gives `MotorService` a sequence. -/
def Commands (f : AppFrame F) : Prop := ∃ cmd, f = .call .motor (.motorSequence cmd)

/-- The step publishes no motor sequence but the one, as the datagram it is, and not again. -/
def Sole (cmd : MotorSequencePayload) (c : AppConfig F) : Thread × Option (AppFrame F) → Prop
  | (t, some (.publish (.motorSequence cmd'))) => cmd' = cmd ∧ t = .bridge ∧
      (c.stack .bridge).length = 1 ∧ .published (.motorSequence cmd) ∉ c.world.history
  | _ => True

instance [DecidableEq F] (cmd : MotorSequencePayload) (c : AppConfig F)
    (a : Thread × Option (AppFrame F)) : Decidable (Sole cmd c a) := by
  obtain ⟨t, _ | f⟩ := a
  · exact .isTrue trivial
  · cases f with
    | publish m => cases m <;> unfold Sole <;> infer_instance
    | _ => exact .isTrue trivial

/-- The motor is through with its command, and the system knows. -/
def Finished (w : World F) : Prop := w.motor.active = false ∧ w.state.state = .ready

/-- A frame with the reply that the system is Ready. -/
def RepliesReady (f : AppFrame F) : Prop :=
  f = .publish (.stateData ⟨.ready⟩) ∨ ∃ h, f = .call h (.stateData ⟨.ready⟩)

omit [FloatOps F] in
theorem repliesReady_publish {m : Msg F} :
    RepliesReady (.publish m : AppFrame F) ↔ m = .stateData ⟨.ready⟩ := by
  simp [RepliesReady]

omit [FloatOps F] in
theorem repliesReady_call {h : Service} {m : Msg F} :
    RepliesReady (.call h m : AppFrame F) ↔ m = .stateData ⟨.ready⟩ := by
  simp [RepliesReady]

omit [FloatOps F] in
theorem not_repliesReady_resume {code : Code (World F) (Msg F)} {lock : Option Mutex} :
    ¬ RepliesReady (.resume code lock : AppFrame F) := by
  simp [RepliesReady]

/-- The sequence has not been published yet. -/
structure Waiting (cmd : MotorSequencePayload) (c : AppConfig F) : Prop where
  fresh : ∀ cmd', .published (.motorSequence cmd') ∈ c.world.history → cmd'.cmdId ≠ cmd.cmdId
  frames : ∀ t, ∀ f ∈ c.stack t, ¬ Commands f

/-- The bridge is about to give it to `MotorService`. -/
structure Given (cmd : MotorSequencePayload) (c : AppConfig F) : Prop where
  published : .published (.motorSequence cmd) ∈ c.world.history
  bridge : c.stack .bridge = [.call .motor (.motorSequence cmd)]
  others : ∀ t, t ≠ .bridge → ∀ f ∈ c.stack t, ¬ Commands f

/-- `MotorService` has it. While `StateService` does not know yet that it runs, the bridge is about
    to tell it; a reply that the system is Ready is only on its way when the motor is through. -/
structure Executed (cmd : MotorSequencePayload) (c : AppConfig F) (ph : Phase) : Prop where
  published : .published (.motorSequence cmd) ∈ c.world.history
  command : c.world.motor.currentCmd = MotorService.accept cmd
  lag : c.world.state.state = .ready → c.world.motor.active = true →
    ph.owner = some .bridge ∧ ph.Owes .state
  frames : ∀ t, ∀ f ∈ c.stack t, ¬ Commands f
  replies : ∀ t, ∀ f ∈ c.stack t, RepliesReady f → Finished c.world

/-- How far the sequence has got. -/
inductive CommandStage where
  | waiting | given | executed
  deriving DecidableEq

/-- The application is at the stage. -/
def AtStage (cmd : MotorSequencePayload) (c : AppConfig F) (ph : Phase) : CommandStage → Prop
  | .waiting => Waiting cmd c
  | .given => Given cmd c
  | .executed => Executed cmd c ph

/-- The sequence has been executed. -/
def Over (st : CommandStage) (w : World F) : Prop := st = .executed ∧ Finished w

/-! ## Frames -/

theorem subscribers_motorSequence (pf : Platform F) (cmd : MotorSequencePayload) :
    (bus pf).subscribers (.motorSequence cmd) = [.motor] :=
  List.perm_singleton.1 (subscribers_perm pf (.motorSequence cmd))

/-- Only publishing a motor sequence leads to a call with one. -/
theorem unfold_commands (pf : Platform F) {w : World F} {f : AppFrame F}
    (hf : ∀ cmd, f ≠ .publish (.motorSequence cmd)) :
    ∀ g ∈ f.unfold (machine pf) w, ¬ Commands g := by
  have hframes : ∀ {code : Code (World F) (Msg F)} {lock : Option Mutex} {g : AppFrame F},
      g ∈ code.frames lock w → ¬ Commands g := by
    rintro code lock g hg ⟨cmd, rfl⟩
    cases code with
    | done => exact absurd hg List.not_mem_nil
    | step sec next => simp [Code.frames] at hg
  intro g hg
  cases f with
  | publish m =>
      obtain ⟨h, -, rfl⟩ := List.mem_map.1 hg
      rintro ⟨cmd, heq⟩
      injection heq with _ hm
      exact hf cmd (hm ▸ rfl)
  | call h m => exact hframes hg
  | resume code lock => exact hframes hg

theorem step_commands {pf : Platform F} {c c' : AppConfig F} {a : Thread × Option (AppFrame F)}
    (hstep : (machine pf).Step c a c') (ha : ∀ t cmd, a ≠ (t, some (.publish (.motorSequence cmd))))
    {T : Thread → Prop} (hc : ∀ t, T t → ∀ f ∈ c.stack t, ¬ Commands f) :
    ∀ t, T t → ∀ f ∈ c'.stack t, ¬ Commands f := by
  have hframes := hstep.frames (Φ := fun t f => T t → ¬ Commands f)
    (Ψ := fun t f => T t → ¬ Commands f) (fun t f hf ht => hc t ht f hf) (fun _ _ _ => id)
    (fun t f rest heq _ _ g hg _ => unfold_commands pf (fun cmd he => ha t cmd (he ▸ heq)) g hg)
    (fun t w ms _ _ m _ _ ⟨cmd, he⟩ => nomatch he)
  exact fun t ht f hf => hframes t f hf ht

omit [FloatOps F] in
/-- While a thread announces what the motor does, it does nothing else. -/
theorem InPhase.top_ne_call {c : AppConfig F} {ph : Phase} (hph : InPhase c ph) {t : Thread}
    (howner : ph.owner = some t) {h : Service} {m : Msg F} {rest : List (AppFrame F)}
    (htop : c.stack t = .call h m :: rest) : m.id = .motorStatus := by
  rcases hph with ⟨rfl, -⟩ | ⟨t₀, fs, post, hb⟩
  · exact nomatch howner
  · obtain rfl := Option.some.inj (hb.owner.symm.trans howner)
    have hstack := htop.symm.trans hb.stack
    have hann := hb.announces
    cases ph with
    | free => exact hann.elim
    | unpublished _ =>
        obtain rfl : fs = _ := hann
        exact nomatch (List.cons.inj hstack).1
    | delivering _ hs =>
        rcases hann with rfl | rfl
        · cases hs with
          | nil => exact nomatch (List.cons.inj hstack).1
          | cons h' hs =>
              obtain ⟨-, rfl⟩ := Frame.call.inj (List.cons.inj hstack).1
              rfl
        · exact nomatch (List.cons.inj hstack).1

omit [FloatOps F] in
/-- A thread that is about to publish a status from within `MotorService`. -/
theorem InPhase.eq_unpublished {c : AppConfig F} {ph : Phase} (hph : InPhase c ph) {t : Thread}
    {m : Msg F} {rest : List (AppFrame F)}
    (hstack : c.stack t = .publish m :: .resume .done (some .motor) :: rest) :
    ph = .unpublished t := by
  have hloud : ¬ Quiet (c.stack t) := by
    intro hq
    rw [hstack] at hq
    exact hq.of_cons.2.of_cons.1.1 rfl
  rcases hph with ⟨rfl, hq⟩ | ⟨t₀, fs, post, hb⟩
  · exact absurd (hq t) hloud
  · obtain rfl : t = t₀ := by
      by_contra hne
      exact hloud (hb.others t hne)
    have htop := hstack.symm.trans hb.stack
    have hann := hb.announces
    cases ph with
    | free => exact hann.elim
    | unpublished _ => exact congrArg Phase.unpublished (Option.some.inj hb.owner)
    | delivering _ hs =>
        rcases hann with rfl | rfl
        · cases hs with
          | nil => exact nomatch (List.cons.inj htop).1
          | cons _ _ => exact nomatch (List.cons.inj htop).1
        · exact nomatch (List.cons.inj htop).1

/-! ## Steps -/

omit [FloatOps F] in
theorem Adds.mem {c : AppConfig F} {a : Thread × Option (AppFrame F)} {history : List (Record F)}
    (h : Adds c a history) {r : Record F} (hr : r ∈ c.world.history) : r ∈ history := by
  cases h with
  | nothing => exact hr
  | published => exact List.mem_cons_of_mem _ hr
  | snapshot => exact List.mem_cons_of_mem _ hr

section Steps

variable {pf : Platform F} {c c' : AppConfig F} {a : Thread × Option (AppFrame F)}
  {cmd : MotorSequencePayload} {ph ph' : Phase}

/-- The bridge takes the sequence, or nothing happens to it. -/
theorem Waiting.step (hw : Waiting cmd c) (hreach : Reachable pf c) (hsole : Sole cmd c a)
    (hstep : (machine pf).Step c a c') : Waiting cmd c' ∨ Given cmd c' := by
  by_cases ha : ∃ t cmd', a = (t, some (.publish (.motorSequence cmd')))
  · obtain ⟨t, cmd', rfl⟩ := ha
    obtain ⟨rfl, rfl, hlength, -⟩ := hsole
    have hother := fun t (ht : t ≠ .bridge) => hstep.other (t := t) ht
    cases hstep with
    | @fire _ _ _ rest htop hfire =>
        obtain rfl : rest = [] := by
          rw [htop] at hlength
          exact List.eq_nil_of_length_eq_zero (Nat.succ.inj hlength)
        obtain rfl := Option.some.inj hfire
        refine .inr ⟨List.mem_cons_self, ?_, fun t ht f hf => ?_⟩
        · rw [Config.put_self, List.append_nil]
          exact congrArg (List.map _) (subscribers_motorSequence pf cmd')
        · exact hw.frames t f (hother t ht ▸ hf)
  · have hne : ∀ t cmd', a ≠ (t, some (.publish (.motorSequence cmd'))) :=
      fun t cmd' heq => ha ⟨t, cmd', heq⟩
    refine .inl ⟨?_, fun t f hf => ?_⟩
    · have hadds := step_adds pf hreach hstep
      intro cmd' hcmd'
      generalize c'.world.history = history at hadds hcmd'
      cases hadds with
      | nothing => exact hw.fresh cmd' hcmd'
      | @published t m =>
          rcases List.mem_cons.1 hcmd' with heq | hcmd'
          · exact absurd (Record.published.inj heq ▸ rfl) (hne t cmd')
          · exact hw.fresh cmd' hcmd'
      | snapshot =>
          rcases List.mem_cons.1 hcmd' with heq | hcmd'
          · exact nomatch heq
          · exact hw.fresh cmd' hcmd'
    · exact step_commands hstep hne (T := fun _ => True) (fun t _ => hw.frames t) t trivial f hf

/-- `MotorService` gets it from the bridge; until then other threads go on. -/
theorem Given.step (hg : Given cmd c) (hreach : Reachable pf c) (hsole : Sole cmd c a)
    (hstep : (machine pf).Step c a c') (hph' : InPhase c' ph') :
    (a.1 ≠ .bridge ∧ Given cmd c') ∨ Executed cmd c' ph' := by
  have hpublished := (step_adds pf hreach hstep).mem hg.published
  by_cases hbridge : a.1 = .bridge
  · have hdiscreet := reachable_discreet pf (hreach.tail ⟨a, trivial, hstep⟩)
    have hothers : ∀ t, t ≠ .bridge → ∀ f ∈ c'.stack t, ¬ Commands f := by
      intro t ht f hf
      exact hg.others t ht f (hstep.other (fun heq => ht (heq.trans hbridge)) ▸ hf)
    cases hstep with
    | start hidle _ =>
        obtain rfl : _ = Thread.bridge := hbridge
        exact nomatch hidle.symm.trans hg.bridge
    | @fire _ t f rest htop hfire =>
        obtain rfl : t = Thread.bridge := hbridge
        obtain ⟨rfl, rfl⟩ := List.cons.inj (htop.symm.trans hg.bridge)
        obtain ⟨-, heq⟩ := Option.ite_none_right_eq_some.1 hfire
        have hrun := (Option.some.inj heq).symm.trans (run_motorSequence pf c .bridge [] cmd)
        subst hrun
        have hbusy := hph'.eq_unpublished (Config.put_self ..)
        refine .inr ⟨hpublished, c.world.motor.onMotorSequence_cmd cmd, fun _ _ => ?_,
          fun t f hf => ?_, fun t f hf hready => ?_⟩
        · exact hbusy ▸ ⟨rfl, trivial⟩
        · by_cases ht : t = .bridge
          · subst ht
            rw [Config.put_self] at hf
            rintro ⟨cmd', rfl⟩
            simp at hf
          · exact hothers t ht f hf
        · have hstate : t ≠ .bridge → False := by
            intro ht
            rcases hready with rfl | ⟨h, rfl⟩ <;> exact hdiscreet t _ hf ht (.inr rfl)
          by_cases ht : t = .bridge
          · subst ht
            rw [Config.put_self] at hf
            rcases hready with rfl | ⟨h, rfl⟩ <;> simp at hf
          · exact (hstate ht).elim
  · refine .inl ⟨hbridge, hpublished, (hstep.other (Ne.symm hbridge)).trans hg.bridge, ?_⟩
    refine step_commands hstep ?_ hg.others
    rintro t cmd' rfl
    exact hbridge hsole.2.1

/-- What `MotorService` does to a command it has: it keeps it, and does not start it again. -/
theorem Change.executed (hchange : Change pf c a ph c' ph') (hstep : (machine pf).Step c a c')
    (he : Executed cmd c ph) :
    c'.world.motor.currentCmd = MotorService.accept cmd ∧
      (c'.world.state.state = .ready → c'.world.motor.active = true →
        ph'.owner = some .bridge ∧ ph'.Owes .state) ∧
      (Finished c.world → Finished c'.world) := by
  cases hchange with
  | elsewhere h _ | moved h _ =>
      exact ⟨h.motor ▸ he.command, by rw [h.motor, h.state]; exact he.lag,
        fun hf => ⟨h.motor ▸ hf.1, h.state ▸ hf.2⟩⟩
  | snapshot _ hmotor hstate _ _ _ =>
      exact ⟨hmotor ▸ he.command, by rw [hmotor, hstate]; exact he.lag,
        fun hf => ⟨hmotor ▸ hf.1, hstate ▸ hf.2⟩⟩
  | @sequence t cmd' _ _ _ => exact absurd ⟨cmd', rfl⟩ (he.frames t _ hstep.mem_stack)
  | @tick t tick _ hw _ _ =>
      rw [hw]
      refine ⟨(c.world.motor.onPhysicsTick_cmd tick).trans he.command, fun hready hactive => ?_,
        fun hf => ⟨?_, hf.2⟩⟩
      · exact absurd (he.lag hready (MotorService.onPhysicsTick_active hactive)).1
          (by simp [Phase.owner])
      · refine Bool.eq_false_iff.2 fun hactive => ?_
        exact Bool.eq_false_iff.1 hf.1 (MotorService.onPhysicsTick_active hactive)
  | announce hw _ =>
      rw [hw]
      refine ⟨he.command, fun hready hactive => ?_, id⟩
      exact ⟨(he.lag hready hactive).1, mem_subscribers.2 (by simp [Service.subscribes, Msg.id])⟩
  | @deliver t h hs _ hmotor hstate _ _ _ =>
      simp only [Finished, hmotor, hstate]
      by_cases hself : h = .state
      · subst hself
        rw [if_pos rfl, StateService.onMotorStatus_eq]
        refine ⟨he.command, fun hready hactive => ?_, fun hf => ⟨hf.1, ?_⟩⟩
        · rw [MotorService.status_isActive, hactive] at hready
          exact absurd hready (by simp [StateService.stateFor])
        · rw [MotorService.status_isActive, hf.1]
          rfl
      · rw [if_neg hself]
        refine ⟨he.command, fun hready hactive => ?_, id⟩
        obtain ⟨howner, howes⟩ := he.lag hready hactive
        exact ⟨howner, (List.mem_cons.1 howes).resolve_left fun heq => hself heq.symm⟩
  | leave hw _ =>
      rw [hw]
      exact ⟨he.command, fun hready hactive =>
        absurd (he.lag hready hactive).2 List.not_mem_nil, id⟩

/-- **A reply that the system is Ready is only made when the motor is through.** -/
theorem Executed.replies_step (he : Executed cmd c ph) (hreach : Reachable pf c)
    (hph : InPhase c ph) (hstep : (machine pf).Step c a c')
    (hmono : Finished c.world → Finished c'.world) :
    ∀ t, ∀ f ∈ c'.stack t, RepliesReady f → Finished c'.world := by
  have hframes : ∀ {code : Code (World F) (Msg F)} {lock : Option Mutex} {g : AppFrame F},
      Reticent code → g ∈ code.frames lock c.world → ¬ RepliesReady g := by
    intro code lock g hcode hg hready
    obtain ⟨m, hm, rfl⟩ | ⟨next, -, rfl⟩ := Code.mem_frames hg hcode.emits
    · obtain rfl := repliesReady_publish.1 hready
      exact hm (.inr rfl)
    · exact not_repliesReady_resume hready
  refine hstep.frames (Φ := fun t f => (RepliesReady f → Finished c.world) ∧ Discreet t f)
    (fun t f hf => ⟨he.replies t f hf, reachable_discreet pf hreach t f hf⟩)
    (fun t f _ hf hready => hmono (hf.1 hready)) ?_ ?_
  · rintro t f rest rfl htop ⟨hf, hdiscreet⟩ g hg hready
    refine hmono ?_
    cases f with
    | publish m =>
        obtain ⟨h, -, rfl⟩ := List.mem_map.1 hg
        exact hf (repliesReady_publish.2 (repliesReady_call.1 hready))
    | resume code lock => exact absurd hready (hframes hdiscreet hg)
    | call h m =>
        by_cases hasks : h = .state ∧ m.id = .stateRequest
        · obtain ⟨rfl, hid⟩ := hasks
          have hbridge : t = .bridge := by
            by_contra ht
            exact hdiscreet ht (.inl hid)
          subst hbridge
          have hstate : c.world.state.state = .ready := by
            cases m <;> simp only [Msg.id, reduceCtorEq] at hid
            rcases List.mem_append.1 hg with hg | hg <;> obtain rfl := List.mem_singleton.1 hg
            · exact congrArg StatePayload.state (Msg.stateData.inj (repliesReady_publish.1 hready))
            · exact absurd hready not_repliesReady_resume
          -- The bridge would still have to tell `StateService` before it asks.
          refine ⟨Bool.eq_false_iff.2 fun hactive => ?_, hstate⟩
          have hstatus := hph.top_ne_call (he.lag hstate hactive).1 htop
          exact absurd (hid.symm.trans hstatus) (by decide)
        · exact absurd hready (hframes (code_reticent pf hasks) hg)
  · rintro t w ms rfl hstart m hm hready
    obtain rfl := repliesReady_publish.1 hready
    cases hstart with
    | tick _ => exact absurd (List.mem_singleton.1 hm) (by simp)
    | datagram hauth =>
        rw [← List.mem_singleton.1 hm] at hauth
        exact absurd hauth Bool.false_ne_true
    | snapshot _ | wait _ => exact absurd hm List.not_mem_nil

/-- **Step lemma.** A step takes the sequence further, or leaves it where it is; it is executed from
    the moment on when `MotorService` is called with it. -/
theorem AtStage.step {st : CommandStage} (hst : AtStage cmd c ph st) (hreach : Reachable pf c)
    (hph : InPhase c ph) (hsole : Sole cmd c a) (hstep : (machine pf).Step c a c')
    (hph' : InPhase c' ph') (hchange : Change pf c a ph c' ph') :
    ∃ st', AtStage cmd c' ph' st' ∧ (st ≠ .waiting → st' ≠ .waiting) ∧
      (Over st c.world → Over st' c'.world) ∧
      (st = .executed ∨ (∃ t cmd', a = (t, some (.call .motor (.motorSequence cmd')))) →
        st' = .executed) := by
  cases st with
  | waiting =>
      have hnot : ¬ Over .waiting c.world := fun h => CommandStage.noConfusion h.1
      have hcalls : ¬ (CommandStage.waiting = .executed ∨
          ∃ t cmd', a = (t, some (.call .motor (.motorSequence cmd')))) := by
        rintro (h | ⟨t, cmd', rfl⟩)
        · exact CommandStage.noConfusion h
        · exact Waiting.frames hst t _ hstep.mem_stack ⟨cmd', rfl⟩
      rcases Waiting.step hst hreach hsole hstep with hw | hg
      · exact ⟨.waiting, hw, id, fun h => absurd h hnot, fun h => absurd h hcalls⟩
      · exact ⟨.given, hg, fun h => absurd rfl h, fun h => absurd h hnot, fun h => absurd h hcalls⟩
  | given =>
      have hnot : ¬ Over .given c.world := fun h => CommandStage.noConfusion h.1
      rcases Given.step hst hreach hsole hstep hph' with ⟨hother, hg⟩ | he
      · refine ⟨.given, hg, id, fun h => absurd h hnot, fun h => ?_⟩
        obtain ⟨t, cmd', rfl⟩ := h.resolve_left CommandStage.noConfusion
        exact absurd ⟨cmd', rfl⟩ (Given.others hst t hother _ hstep.mem_stack)
      · exact ⟨.executed, he, fun _ => CommandStage.noConfusion, fun h => absurd h hnot,
          fun _ => rfl⟩
  | executed =>
      have he : Executed cmd c ph := hst
      obtain ⟨hcommand, hlag, hfinished⟩ := hchange.executed hstep he
      have hquiet : ∀ t cmd', a ≠ (t, some (.publish (.motorSequence cmd'))) := by
        rintro t cmd' rfl
        exact hsole.2.2.2 he.published
      refine ⟨.executed, ⟨(step_adds pf hreach hstep).mem he.published, hcommand, hlag,
        fun t f hf => ?_, he.replies_step hreach hph hstep hfinished⟩,
        fun _ => CommandStage.noConfusion, fun h => ⟨rfl, hfinished h.2⟩, fun _ => rfl⟩
      exact step_commands hstep hquiet (T := fun _ => True) (fun t _ => he.frames t) t trivial f hf

end Steps

end App

end ReflectPytest
