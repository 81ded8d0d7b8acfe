import ReflectPytest.Concurrency.Agreement
import ReflectPytest.Concurrency.CommandIds
import ReflectPytest.Concurrency.CommandStages
import ReflectPytest.Sequential.Schedule

set_option autoImplicit false

/-! # The ticks of a command

While `MotorService` executes a sequence whose id nobody has used before, the ticks with that id are
its schedule: each step in turn, for as long as it lasts, and the speed 0 once it is through. The
clock takes them one by one, a tick that has been taken is published before the next one
(`step_emitted`), and the clock and the motor stay on schedule (`OnSchedule.step`), however the
threads interleave. -/

namespace ReflectPytest

open SyncBus

variable {F : Type} [FloatOps F]

namespace App

/-! ## Taken and published -/

/-- A tick the clock has taken. -/
def takenTick : Record F → Option PhysicsTickPayload
  | .snapshot tick => some tick
  | _ => none

/-- A tick that has been published. -/
def publishedTick : Record F → Option PhysicsTickPayload
  | .published (.physicsTick tick) => some tick
  | _ => none

/-- A tick the frame is about to publish. -/
def emittedBy : AppFrame F → Option PhysicsTickPayload
  | .publish (.physicsTick tick) => some tick
  | _ => none

/-- The ticks taken and not published yet. -/
def unpublishedTicks (c : AppConfig F) : List PhysicsTickPayload :=
  c.world.clockTick.toList ++ (c.stack .clock).filterMap emittedBy

/-- What has been taken has been published, or will be. -/
def Emitted (c : AppConfig F) : Prop :=
  c.world.history.filterMap takenTick =
    unpublishedTicks c ++ c.world.history.filterMap publishedTick

/-- Code that has nothing to do with the clock's ticks. -/
structure Tickless (code : Code (World F) (Msg F)) : Prop where
  emits : code.Emits fun m => m.id ≠ .physicsTick
  grows : code.Grows fun w w' => w'.history = w.history ∧ w'.clockTick = w.clockTick

theorem code_tickless (pf : Platform F) (h : Service) (m : Msg F) : Tickless (code pf h m) := by
  refine ⟨(code_emits pf h m).mono fun m' hm' hid => ?_,
    (code_grows_outside pf h m).mono fun _ _ hsame => ⟨hsame.1, hsame.2.2⟩⟩
  rw [hid] at hm'
  generalize m.id = id at hm'
  cases h <;> cases id <;> simp [Service.answers] at hm'

omit [FloatOps F] in
theorem Inert.tickless {code : Code (World F) (Msg F)} (h : Inert code) : Tickless code :=
  ⟨h.emits.mono fun _ hm => hm.2, h.grows.mono fun _ _ hsame => ⟨hsame.history, hsame.clockTick⟩⟩

omit [FloatOps F] in
/-- Every handler that goes on after a publish has nothing to do with them. -/
theorem InPhase.resume_tickless {c : AppConfig F} {ph : Phase} (hph : InPhase c ph) {t : Thread}
    {code : Code (World F) (Msg F)} {lock : Option Mutex} (h : .resume code lock ∈ c.stack t) :
    Tickless code := by
  have hdone : Tickless (.done : Code (World F) (Msg F)) := ⟨trivial, trivial⟩
  have hquiet : Quiet (c.stack t) → Tickless code := fun hq => (hq _ h).2.tickless
  rcases hph with ⟨-, hq⟩ | ⟨t₀, fs, post, hb⟩
  · exact hquiet (hq t)
  · by_cases ht : t = t₀
    · subst ht
      rw [hb.stack] at h
      rcases List.mem_append.1 h with h | h
      · -- Within the announcement there is at most the frame left over from a delivery.
        have hann := hb.announces
        cases ph with
        | free => exact hann.elim
        | unpublished _ =>
            obtain rfl : fs = _ := hann
            exact nomatch List.mem_singleton.1 h
        | delivering _ hs =>
            rcases hann with rfl | rfl
            · simp at h
            · rcases List.mem_cons.1 h with h | h
              · obtain ⟨rfl, -⟩ := Frame.resume.inj h
                exact hdone
              · simp at h
      · rcases List.mem_cons.1 h with h | h
        · obtain ⟨rfl, -⟩ := Frame.resume.inj h
          exact hdone
        · exact (hb.below _ h).2.tickless
    · exact hquiet (hb.others t ht)

omit [FloatOps F] in
theorem emittedBy_le (fs : List (AppFrame F)) :
    (fs.filterMap emittedBy).Sublist (fs.filterMap tickOf) := by
  induction fs with
  | nil => exact List.Sublist.refl _
  | cons f fs ih =>
      cases hf : emittedBy f with
      | none =>
          rw [List.filterMap_cons_none hf]
          exact ih.trans ((List.sublist_cons_self f fs).filterMap tickOf)
      | some tick =>
          have htick : tickOf f = some tick := by
            cases f with
            | publish m => cases m <;> simp_all [emittedBy, tickOf]
            | _ => simp [emittedBy] at hf
          rw [List.filterMap_cons_some hf, List.filterMap_cons_some htick]
          exact ih.cons_cons tick

omit [FloatOps F] in
theorem unpublishedTicks_sublist (c : AppConfig F) :
    (unpublishedTicks c).Sublist (pendingTicks c) :=
  (List.Sublist.refl _).append (emittedBy_le _)

omit [FloatOps F] in
/-- The thread that publishes a tick is the clock, and no other tick is pending. -/
theorem OneTick.publishing {c : AppConfig F} (h : OneTick c) {t : Thread}
    {tick : PhysicsTickPayload} {rest : List (AppFrame F)}
    (htop : c.stack t = .publish (.physicsTick tick) :: rest) :
    t = .clock ∧ c.world.clockTick = none ∧ rest.filterMap emittedBy = [] := by
  have hticks : (c.stack t).filterMap tickOf = tick :: rest.filterMap tickOf := by
    rw [htop]
    rfl
  have ht : t = .clock := by
    by_contra hne
    exact absurd (hticks.symm.trans (h.others t hne)) (by simp)
  subst ht
  have hlen := h.atMostOne
  unfold pendingTicks at hlen
  rw [hticks, List.length_append, List.length_cons] at hlen
  refine ⟨rfl, ?_, ?_⟩
  · cases hc : c.world.clockTick with
    | none => rfl
    | some _ =>
        rw [hc, Option.toList_some, List.length_singleton] at hlen
        omega
  · have hnone : rest.filterMap tickOf = [] := List.length_eq_zero_iff.1 (by omega)
    exact List.sublist_nil.1 (hnone ▸ emittedBy_le rest)

omit [FloatOps F] in
/-- Frames that emit no tick may be put on top. -/
theorem filterMap_emittedBy_append {fs rest : List (AppFrame F)}
    (h : ∀ f ∈ fs, emittedBy f = none) :
    (fs ++ rest).filterMap emittedBy = rest.filterMap emittedBy := by
  rw [List.filterMap_append, List.filterMap_eq_nil_iff.2 h, List.nil_append]

omit [FloatOps F] in
/-- A thread whose new stack emits the same ticks. -/
theorem filterMap_emittedBy_put {c : AppConfig F} {t : Thread} {w : World F}
    {fs : List (AppFrame F)} (h : fs.filterMap emittedBy = (c.stack t).filterMap emittedBy) :
    ((c.put t w fs).stack .clock).filterMap emittedBy =
      (c.stack .clock).filterMap emittedBy := by
  by_cases ht : t = .clock
  · subst ht
    rw [Config.put_self, h]
  · rw [Config.put_other _ (Ne.symm ht)]

omit [FloatOps F] in
/-- Code without ticks leaves them as they are. -/
theorem Emitted.run {c : AppConfig F} (h : Emitted c) {t : Thread} {f : AppFrame F}
    {rest : List (AppFrame F)} (htop : c.stack t = f :: rest) (hf : emittedBy f = none)
    {code : Code (World F) (Msg F)} (hcode : Tickless code) {lock : Option Mutex} :
    Emitted (c.run t rest code lock) := by
  have hsame : (c.run t rest code lock).world.history = c.world.history ∧
      (c.run t rest code lock).world.clockTick = c.world.clockTick ∧
      ((c.run t rest code lock).stack .clock).filterMap emittedBy =
        (c.stack .clock).filterMap emittedBy := by
    have hrest : rest.filterMap emittedBy = (c.stack t).filterMap emittedBy := by
      rw [htop, List.filterMap_cons_none hf]
    cases code with
    | done => exact ⟨rfl, rfl, filterMap_emittedBy_put hrest⟩
    | step sec next =>
        obtain ⟨hhistory, hclockTick⟩ := hcode.grows.1 c.world
        refine ⟨hhistory, hclockTick, filterMap_emittedBy_put ?_⟩
        refine (filterMap_emittedBy_append fun g hg => ?_).trans
          ((List.filterMap_cons_none rfl).trans hrest)
        obtain ⟨m, hm, rfl⟩ := List.mem_map.1 hg
        have hid := hcode.emits.1 c.world m hm
        cases m <;> first | rfl | exact absurd rfl hid
  unfold Emitted unpublishedTicks
  rw [hsame.1, hsame.2.1, hsame.2.2]
  exact h

/-- **Step lemma.** A tick is published once, before the next one is taken. -/
theorem step_emitted (pf : Platform F) {c c' : AppConfig F} {ph : Phase}
    {a : Thread × Option (AppFrame F)} (hph : InPhase c ph) (htick : OneTick c)
    (hstep : (machine pf).Step c a c') (h : Emitted c) : Emitted c' := by
  cases hstep with
  | @start t w ms hidle hstart =>
      cases hstart with
      | snapshot hnone =>
          have hnow : unpublishedTicks c = [] := by simp [unpublishedTicks, hnone, hidle]
          unfold Emitted at h ⊢
          rw [hnow] at h
          show _ :: _ = _
          rw [h]
          simp [unpublishedTicks, takeSnapshot]
          rfl
      | @tick _ tick hsome =>
          have hnow : unpublishedTicks c = [tick] := by simp [unpublishedTicks, hsome, hidle]
          unfold Emitted at h ⊢
          rw [hnow] at h
          simpa [unpublishedTicks, emittedBy] using h
      | datagram _ | wait _ =>
          unfold Emitted unpublishedTicks
          rw [Config.put_other _ (by decide)]
          exact h
  | @fire _ t f rest htop hfire =>
      cases f with
      | resume code lock =>
          obtain rfl := Option.some.inj hfire
          exact h.run htop rfl (hph.resume_tickless (htop ▸ List.mem_cons_self))
      | call s m =>
          obtain rfl := Option.some.inj (Option.ite_none_right_eq_some.1 hfire).2
          exact h.run htop rfl (code_tickless pf s m)
      | publish m =>
          obtain rfl := Option.some.inj hfire
          have hcalls : ((((machine pf).subscribers m).map (Frame.call · m) ++ rest :
              List (AppFrame F))).filterMap emittedBy = rest.filterMap emittedBy := by
            refine filterMap_emittedBy_append fun g hg => ?_
            obtain ⟨_, -, rfl⟩ := List.mem_map.1 hg
            rfl
          by_cases hid : m.id = .physicsTick
          · cases m <;> simp only [Msg.id, reduceCtorEq] at hid
            next tick =>
              obtain ⟨rfl, hclock, hrest⟩ := htick.publishing htop
              have hnow : unpublishedTicks c = [tick] := by
                simp [unpublishedTicks, htop, hclock, hrest, emittedBy]
              unfold Emitted at h ⊢
              rw [hnow] at h
              refine h.trans ?_
              unfold unpublishedTicks
              rw [Config.put_self, hcalls, hrest]
              show _ = Option.toList c.world.clockTick ++ [] ++ _ :: _
              rw [hclock]
              rfl
          · have hquiet : emittedBy (.publish m : AppFrame F) = none := by
              cases m <;> first | rfl | exact absurd rfl hid
            have hnone : publishedTick (.published m : Record F) = none := by
              cases m <;> first | rfl | exact absurd rfl hid
            have hrest : rest.filterMap emittedBy = (c.stack t).filterMap emittedBy := by
              rw [htop, List.filterMap_cons_none hquiet]
            unfold Emitted unpublishedTicks at h ⊢
            refine h.trans (congrArg₂ (· ++ ·) ?_ ?_)
            · exact congrArg (_ ++ ·) (filterMap_emittedBy_put (hcalls.trans hrest)).symm
            · exact (List.filterMap_cons_none hnone).symm

/-! ## Ticks of the clock -/

/-- The clock's ticks carry an id that was issued, and the length of a tick; a pending tick is one
    of them. -/
structure Stamped (pf : Platform F) (c : AppConfig F) : Prop where
  issued : ∀ tick, .snapshot tick ∈ c.world.history → Issued tick.cmdId c.world.history
  length : ∀ tick, .snapshot tick ∈ c.world.history → tick.dtUs = pf.kTickUs
  pending : ∀ tick ∈ pendingTicks c, .snapshot tick ∈ c.world.history

theorem start_stamped (pf : Platform F) : Stamped pf start :=
  ⟨fun _ h => absurd h List.not_mem_nil, fun _ h => absurd h List.not_mem_nil,
    fun _ h => absurd h List.not_mem_nil⟩

omit [FloatOps F] in
/-- A step that takes no tick. -/
theorem Stamped.later {pf : Platform F} {c c' : AppConfig F} (h : Stamped pf c)
    (hhistory : c'.world.history = c.world.history ∨
      ∃ m, c'.world.history = .published m :: c.world.history)
    (hticks : ∀ tick ∈ pendingTicks c', tick ∈ pendingTicks c) : Stamped pf c' := by
  have hle : c.world.history <:+ c'.world.history := by
    rcases hhistory with he | ⟨m, he⟩ <;> rw [he]
    exact List.suffix_cons _ _
  have hsnap : ∀ tick, .snapshot tick ∈ c'.world.history → .snapshot tick ∈ c.world.history := by
    intro tick hmem
    rcases hhistory with he | ⟨m, he⟩ <;> rw [he] at hmem
    · exact hmem
    · exact (List.mem_cons.1 hmem).resolve_left nofun
  exact ⟨fun tick hmem => (h.issued tick (hsnap tick hmem)).later hle,
    fun tick hmem => h.length tick (hsnap tick hmem),
    fun tick hmem => hle.subset (h.pending tick (hticks tick hmem))⟩

/-- **Step lemma.** -/
theorem Change.stamped {pf : Platform F} {c c' : AppConfig F} {a : Thread × Option (AppFrame F)}
    {ph ph' : Phase} (hc : Change pf c a ph c' ph') (htraced : Traced c.world)
    (h : Stamped pf c) : Stamped pf c' := by
  cases hc with
  | elsewhere hun _ | moved hun _ =>
      have hhistory : c'.world.history = c.world.history ∨
          ∃ m, c'.world.history = .published m :: c.world.history :=
        hun.history.imp_right fun ⟨m, hm⟩ => ⟨m, hm.2⟩
      exact h.later hhistory fun _ hm => hun.ticks ▸ hm
  | snapshot _ _ _ _ hhist hticks =>
      have hle : c.world.history <:+ c'.world.history := hhist ▸ List.suffix_cons _ _
      have hcases : ∀ tick, .snapshot tick ∈ c'.world.history →
          tick = c.world.state.snapshot pf.kTickUs ∨ .snapshot tick ∈ c.world.history := by
        intro tick hmem
        rw [hhist] at hmem
        exact (List.mem_cons.1 hmem).imp_left Record.snapshot.inj
      refine ⟨fun tick hmem => ?_, fun tick hmem => ?_, fun tick hmem => ?_⟩
      · rcases hcases tick hmem with rfl | hold
        · exact htraced.state.later hle
        · exact (h.issued tick hold).later hle
      · rcases hcases tick hmem with rfl | hold
        · rfl
        · exact h.length tick hold
      · rw [hticks] at hmem
        rw [hhist, List.mem_singleton.1 hmem]
        exact List.mem_cons_self
  | sequence hw hticks => exact h.later (.inl (by rw [hw])) fun _ hm => hticks ▸ hm
  | tick hw _ hafter =>
      exact h.later (.inl (by rw [hw])) fun _ hm => absurd (hafter ▸ hm) List.not_mem_nil
  | announce hw hticks => exact h.later (.inr ⟨_, by rw [hw]⟩) fun _ hm => hticks ▸ hm
  | deliver _ _ _ hhist hticks => exact h.later (.inl hhist) fun _ hm => hticks ▸ hm
  | leave hw hticks => exact h.later (.inl (by rw [hw])) fun _ hm => hticks ▸ hm

/-- **Every tick is recorded and published in turn**, in every reachable configuration. -/
theorem reachable_ticks (pf : Platform F) {c : AppConfig F} (hreach : Reachable pf c) :
    Emitted c ∧ Stamped pf c := by
  have hstep : ∀ (c : AppConfig F) a ph (c' : AppConfig F) ph', Emitted c ∧ Stamped pf c →
      InPhase c ph → Reachable pf c → True → (machine pf).Step c a c' → Change pf c a ph c' ph' →
      Emitted c' ∧ Stamped pf c' := by
    intro c a ph c' ph' ⟨hemitted, hstamped⟩ hph hrun _ hstep hc
    obtain ⟨-, -, honeTick, -⟩ := run_phase (I := fun _ _ => True) trivial
      (fun _ _ _ _ _ _ _ _ _ _ _ => trivial) hrun
    exact ⟨step_emitted pf hph honeTick hstep hemitted,
      hc.stamped (reachable_traced pf hrun) hstamped⟩
  obtain ⟨-, -, -, hticks⟩ := run_phase (I := fun c _ => Emitted c ∧ Stamped pf c)
    ⟨rfl, start_stamped pf⟩ hstep hreach
  exact hticks

/-! ## The ticks of one id -/

/-- The ticks with the id, newest first. -/
def takenFor (cmdId : Nat) (history : List (Record F)) : List PhysicsTickPayload :=
  (history.filterMap takenTick).filter fun tick => tick.cmdId = cmdId

/-- Nothing in the application knows the id. -/
structure Unheard (cmdId : Nat) (c : AppConfig F) : Prop where
  motor : c.world.motor.currentCmd.cmdId ≠ cmdId
  state : c.world.state.lastCmdId ≠ cmdId
  pending : ∀ tick ∈ pendingTicks c, tick.cmdId ≠ cmdId
  taken : takenFor cmdId c.world.history = []

/-- The tick that finds the motor in the step. -/
def stepTick (dt : Nat) (cmd : MotorSequencePayload) (i : Nat) : PhysicsTickPayload :=
  ⟨cmd.cmdId, nextSpeed cmd [i], dt⟩

/-- `MotorService` executes the command: what it has left of the schedule is what the ticks so far
    leave, the pending one not counted; and `StateService` is up to date, or the next tick carries
    another id, or the clock itself is about to bring it up to date. -/
structure OnSchedule (pf : Platform F) (cmd : MotorSequencePayload) (c : AppConfig F) (ph : Phase) :
    Prop where
  executes : c.world.motor.Executes cmd
  agree : Agree c ph
  told : Matches c.world ∨ ph.owner = some .clock ∨ c.world.state.lastCmdId ≠ cmd.cmdId
  pending : ∀ tick ∈ pendingTicks c, tick.cmdId = cmd.cmdId →
    tick = ⟨cmd.cmdId, nextSpeed cmd (c.world.motor.remaining pf.kTickUs cmd), pf.kTickUs⟩
  taken : ∃ done idle, schedule pf.kTickUs cmd = done ++ c.world.motor.remaining pf.kTickUs cmd ∧
    (idle = 0 ∨ c.world.motor.active = false) ∧
    takenFor cmd.cmdId c.world.history =
      (pendingTicks c).filter (fun tick => tick.cmdId = cmd.cmdId) ++
        List.replicate idle ⟨cmd.cmdId, 0, pf.kTickUs⟩ ++
          (done.map (stepTick pf.kTickUs cmd)).reverse

section Steps

variable {pf : Platform F} {c c' : AppConfig F} {a : Thread × Option (AppFrame F)}
  {cmd : MotorSequencePayload} {ph ph' : Phase}

omit [FloatOps F] in
/-- While the sequence waits, nothing knows its id. -/
theorem Waiting.unheard (hw : Waiting cmd c) (hzero : cmd.cmdId ≠ 0) (htraced : Traced c.world)
    (hstamped : Stamped pf c) : Unheard cmd.cmdId c := by
  have hfresh : ∀ {cmdId : Nat}, Issued cmdId c.world.history → cmdId ≠ cmd.cmdId := by
    rintro cmdId (rfl | ⟨cmd', hcmd', rfl⟩)
    · exact hzero.symm
    · exact hw.fresh cmd' hcmd'
  refine ⟨hfresh htraced.motor, hfresh htraced.state,
    fun tick htick => hfresh (hstamped.issued tick (hstamped.pending tick htick)), ?_⟩
  refine List.filter_eq_nil_iff.2 fun tick htick => ?_
  obtain ⟨r, hr, hr'⟩ := List.mem_filterMap.1 htick
  cases r with
  | published m => exact nomatch hr'
  | snapshot tick' =>
      obtain rfl := Option.some.inj hr'
      simpa using hfresh (hstamped.issued _ hr)

omit [FloatOps F] in
/-- The same motor and ticks. -/
theorem Unheard.congr {cmdId : Nat} (h : Unheard cmdId c)
    (hmotor : c'.world.motor.currentCmd = c.world.motor.currentCmd)
    (hstate : c'.world.state.lastCmdId ≠ cmdId)
    (hticks : ∀ tick ∈ pendingTicks c', tick ∈ pendingTicks c)
    (htaken : takenFor cmdId c'.world.history = takenFor cmdId c.world.history) :
    Unheard cmdId c' :=
  ⟨hmotor ▸ h.motor, hstate, fun tick htick => h.pending tick (hticks tick htick),
    htaken.trans h.taken⟩

omit [FloatOps F] in
theorem Unrelated.taken {cmdId : Nat} (h : Unrelated c c') :
    takenFor cmdId c'.world.history = takenFor cmdId c.world.history := by
  rcases h.history with he | ⟨m, -, he⟩ <;> rw [he]
  rfl

/-- **Step lemma** until `MotorService` is called with the sequence. -/
theorem Unheard.step {cmdId : Nat} (h : Unheard cmdId c) (hc : Change pf c a ph c' ph')
    (hnot : ¬ ∃ t cmd', a = (t, some (.call .motor (.motorSequence cmd')))) :
    Unheard cmdId c' := by
  cases hc with
  | elsewhere hun _ | moved hun _ =>
      exact h.congr (by rw [hun.motor]) (hun.state ▸ h.state) (fun _ hm => hun.ticks ▸ hm)
        hun.taken
  | snapshot _ hmotor hstate _ hhist hticks =>
      refine ⟨hmotor ▸ h.motor, hstate ▸ h.state, fun tick htick => ?_, ?_⟩
      · rw [hticks] at htick
        rw [List.mem_singleton.1 htick]
        exact h.state
      · have hother : ¬ (c.world.state.snapshot pf.kTickUs).cmdId = cmdId := h.state
        rw [hhist]
        exact (List.filter_cons_of_neg (by simpa using hother)).trans h.taken
  | sequence _ _ => exact absurd ⟨_, _, rfl⟩ hnot
  | @tick _ tick _ hw _ hafter =>
      refine h.congr (by rw [hw]; exact c.world.motor.onPhysicsTick_cmd tick)
        (by rw [hw]; exact h.state) (fun _ hm => absurd (hafter ▸ hm) List.not_mem_nil)
        (by rw [hw])
  | announce hw hticks =>
      exact h.congr (by rw [hw]) (by rw [hw]; exact h.state) (fun _ hm => hticks ▸ hm)
        (by rw [hw]; rfl)
  | @deliver _ s _ _ hmotor hstate _ hhist hticks =>
      refine h.congr (by rw [hmotor]) ?_ (fun _ hm => hticks ▸ hm) (by rw [hhist])
      rw [hstate]
      split
      · rw [StateService.onMotorStatus_eq]
        exact h.motor
      · exact h.state
  | leave hw hticks =>
      exact h.congr (by rw [hw]) (by rw [hw]; exact h.state) (fun _ hm => hticks ▸ hm) (by rw [hw])

omit [FloatOps F] in
/-- `MotorService` takes the sequence and has its whole schedule before it. -/
theorem Unheard.start (h : Unheard cmd.cmdId c) (hn : 1 ≤ cmd.numSteps)
    (hd : 0 < (cmd.steps 0).durationUs) {t : Thread}
    (hw : c'.world = { c.world with motor := (c.world.motor.onMotorSequence cmd).1 })
    (hticks : pendingTicks c' = pendingTicks c) : OnSchedule pf cmd c' (.unpublished t) := by
  have hnone : (pendingTicks c').filter (fun tick => tick.cmdId = cmd.cmdId) = [] :=
    List.filter_eq_nil_iff.2 fun tick htick => by simpa using h.pending tick (hticks ▸ htick)
  refine ⟨?_, fun howes => absurd trivial howes, .inr (.inr ?_), fun tick htick hid => ?_,
    [], 0, ?_, .inl rfl, ?_⟩
  · rw [hw]
    exact c.world.motor.onMotorSequence_executes cmd
  · rw [hw]
    exact h.state
  · exact absurd hid (h.pending tick (hticks ▸ htick))
  · rw [hw]
    exact (MotorService.remaining_onMotorSequence _ _ cmd hn hd).symm
  · rw [hnone, hw]
    exact h.taken

omit [FloatOps F] in
/-- A step that leaves the motor and the ticks as they are. -/
theorem OnSchedule.congr (h : OnSchedule pf cmd c ph) (hagree : Agree c' ph')
    (hmotor : c'.world.motor = c.world.motor)
    (htold : Matches c'.world ∨ ph'.owner = some .clock ∨ c'.world.state.lastCmdId ≠ cmd.cmdId)
    (hticks : pendingTicks c' = pendingTicks c)
    (htaken : takenFor cmd.cmdId c'.world.history = takenFor cmd.cmdId c.world.history) :
    OnSchedule pf cmd c' ph' := by
  refine ⟨hmotor ▸ h.executes, hagree, htold, ?_, ?_⟩
  · rw [hmotor, hticks]
    exact h.pending
  · rw [hmotor, hticks, htaken]
    exact h.taken

omit [FloatOps F] in
/-- The clock takes a tick: the one the motor waits for, unless the clock has not heard of the
    command yet. -/
theorem OnSchedule.snapshot (h : OnSchedule pf cmd c ph) (hagree : Agree c' ph)
    (hnow : pendingTicks c = []) (hclock : ph.owner ≠ some .clock)
    (hmotor : c'.world.motor = c.world.motor) (hstate : c'.world.state = c.world.state)
    (hhist : c'.world.history = .snapshot (c.world.state.snapshot pf.kTickUs) :: c.world.history)
    (hticks : pendingTicks c' = [c.world.state.snapshot pf.kTickUs]) : OnSchedule pf cmd c' ph := by
  obtain ⟨done, idle, hschedule, hidle, htaken⟩ := h.taken
  rw [hnow] at htaken
  have htick : (c.world.state.snapshot pf.kTickUs).cmdId = cmd.cmdId →
      c.world.state.snapshot pf.kTickUs =
        ⟨cmd.cmdId, nextSpeed cmd (c.world.motor.remaining pf.kTickUs cmd), pf.kTickUs⟩ := by
    intro hid
    have hknown : Matches c.world :=
      h.told.resolve_right fun hother => hother.elim hclock fun hne => hne hid
    exact Follows.snapshot ⟨h.executes, hknown, rfl⟩
  refine ⟨hmotor ▸ h.executes, hagree, h.told.imp (·.congr hmotor hstate)
    (·.imp_right fun hne => hstate ▸ hne), fun tick hmem hid => ?_, done, idle, hmotor ▸ hschedule,
    hmotor ▸ hidle, ?_⟩
  · rw [hticks] at hmem
    obtain rfl := List.mem_singleton.1 hmem
    rw [hmotor]
    exact htick hid
  · rw [hhist, hticks]
    by_cases hid : (c.world.state.snapshot pf.kTickUs).cmdId = cmd.cmdId
    · rw [List.filter_cons_of_pos (by simpa using hid)]
      exact (List.filter_cons_of_pos (by simpa using hid)).trans (congrArg _ htaken)
    · rw [List.filter_cons_of_neg (by simpa using hid)]
      exact (List.filter_cons_of_neg (by simpa using hid)).trans htaken

omit [FloatOps F] in
/-- `MotorService` takes the pending tick off its schedule, if it is for the command. -/
theorem OnSchedule.tick (h : OnSchedule pf cmd c .free) (hdt : 0 < pf.kTickUs)
    (hstamped : Stamped pf c) {tick : PhysicsTickPayload} (hagree : Agree c' ph')
    (howner : ph'.owner = some .clock)
    (hw : c'.world = { c.world with motor := (c.world.motor.onPhysicsTick tick).1 })
    (hbefore : pendingTicks c = [tick]) (hafter : pendingTicks c' = []) :
    OnSchedule pf cmd c' ph' := by
  obtain ⟨done, idle, hschedule, hidle, htaken⟩ := h.taken
  have hlength : tick.dtUs = pf.kTickUs :=
    hstamped.length tick (hstamped.pending tick (hbefore ▸ List.mem_singleton_self _))
  have hcommand : c.world.motor.currentCmd.cmdId = cmd.cmdId :=
    congrArg (·.cmdId) h.executes.command
  have hexecutes : c'.world.motor.Executes cmd := by
    rw [hw]
    exact MotorService.onPhysicsTick_executes h.executes tick
  refine ⟨hexecutes, hagree, .inr (.inl howner),
    fun tick' hmem => absurd (hafter ▸ hmem) List.not_mem_nil, ?_⟩
  rw [hafter, hw]
  rw [hbefore] at htaken
  by_cases hid : tick.cmdId = cmd.cmdId
  · have htick := h.pending tick (hbefore ▸ List.mem_singleton_self _) hid
    rw [List.filter_cons_of_pos (by simpa using hid), List.filter_nil] at htaken
    cases hactive : c.world.motor.active with
    | true =>
        -- A step of the schedule.
        have hcharges : c.world.motor.charges tick = true := by
          simp [MotorService.charges, hactive, hid, hcommand]
        have hrest := MotorService.remaining_tick hdt h.executes hcharges hlength
        obtain rfl := hidle.resolve_right (by simp [hactive])
        refine ⟨done ++ [c.world.motor.currentStepIdx], 0, ?_, .inl rfl, ?_⟩
        · rw [hschedule, hrest, List.append_assoc]
          rfl
        · refine htaken.trans ?_
          rw [htick, hrest]
          simp [stepTick, nextSpeed]
    | false =>
        -- The motor is through.
        have hsame : c.world.motor.onPhysicsTick tick = (c.world.motor, none) := by
          simp [MotorService.onPhysicsTick, MotorService.charges, hactive]
        have hnone : c.world.motor.remaining pf.kTickUs cmd = [] := by
          simp [MotorService.remaining, hactive]
        rw [hsame]
        refine ⟨done, idle + 1, hschedule, .inr hactive, ?_⟩
        refine htaken.trans ?_
        rw [htick, hnone, List.replicate_succ]
        rfl
  · have hsame : c.world.motor.onPhysicsTick tick = (c.world.motor, none) := by
      simp [MotorService.onPhysicsTick, MotorService.charges, hcommand, hid]
    rw [List.filter_cons_of_neg (by simpa using hid), List.filter_nil] at htaken
    rw [hsame]
    exact ⟨done, idle, hschedule, hidle, htaken⟩

/-- **Step lemma** from then on. -/
theorem OnSchedule.step (h : OnSchedule pf cmd c ph) (hdt : 0 < pf.kTickUs) (hph : InPhase c ph)
    (honeTick : OneTick c) (hstamped : Stamped pf c) (hstep : (machine pf).Step c a c')
    (hc : Change pf c a ph c' ph')
    (hnot : ¬ ∃ t cmd', a = (t, some (.call .motor (.motorSequence cmd')))) :
    OnSchedule pf cmd c' ph' := by
  have hagree : Agree c' ph' := hc.agree h.agree
  cases hc with
  | elsewhere hun _ | moved hun _ =>
      exact h.congr hagree hun.motor
        (h.told.imp (·.congr hun.motor hun.state) (·.imp_right fun hne => hun.state ▸ hne))
        hun.ticks hun.taken
  | snapshot hnone hmotor hstate _ hhist hticks =>
      cases hstep with
      | start hidle _ =>
          refine h.snapshot hagree ?_ (fun howner => ?_) hmotor hstate hhist hticks
          · simp [pendingTicks, hnone, hidle]
          · -- A thread that announces a status is not idle.
            rcases hph with ⟨rfl, -⟩ | ⟨t, fs, post, hb⟩
            · cases howner
            · obtain rfl := Option.some.inj (hb.owner.symm.trans howner)
              exact absurd (hb.stack.symm.trans hidle) (by simp)
  | sequence _ _ => exact absurd ⟨_, _, rfl⟩ hnot
  | @tick t tick _ hw hbefore hafter =>
      have hclock : t = .clock := by
        by_contra hne
        have hnil := honeTick.others t hne
        exact absurd (List.filterMap_eq_nil_iff.1 hnil _ hstep.mem_stack) (by simp [tickOf])
      subst hclock
      refine h.tick hdt hstamped hagree ?_ hw hbefore hafter
      split <;> rfl
  | announce hw hticks =>
      exact h.congr hagree (by rw [hw]) (by rw [hw]; exact h.told) hticks (by rw [hw]; rfl)
  | @deliver _ s _ _ hmotor hstate _ hhist hticks =>
      refine h.congr hagree hmotor ?_ hticks (by rw [hhist])
      by_cases hself : s = .state
      · refine .inl ?_
        unfold Matches
        rw [hstate, if_pos hself, hmotor, StateService.onMotorStatus_eq]
        rfl
      · rw [if_neg hself] at hstate
        exact h.told.imp (·.congr hmotor hstate) (·.imp_right fun hne => hstate ▸ hne)
  | leave hw hticks =>
      exact h.congr hagree (by rw [hw]) (.inl (hagree id)) hticks (by rw [hw])

/-- What the clock and the motor have made of the sequence at a stage. -/
def Carried (pf : Platform F) (cmd : MotorSequencePayload) (c : AppConfig F) (ph : Phase)
    (st : CommandStage) : Prop :=
  if st = .executed then OnSchedule pf cmd c ph else Unheard cmd.cmdId c

/-- **Step lemma** for all stages. -/
theorem Carried.step {st st' : CommandStage} (h : Carried pf cmd c ph st) (hdt : 0 < pf.kTickUs)
    (hn : 1 ≤ cmd.numSteps) (hd : 0 < (cmd.steps 0).durationUs) (hph : InPhase c ph)
    (honeTick : OneTick c) (hstamped : Stamped pf c) (hstep : (machine pf).Step c a c')
    (hc : Change pf c a ph c' ph') (hst : AtStage cmd c ph st) (hst' : AtStage cmd c' ph' st')
    (hlater : st = .executed ∨ (∃ t cmd', a = (t, some (.call .motor (.motorSequence cmd')))) →
      st' = .executed) : Carried pf cmd c' ph' st' := by
  have hcommand : st' = .executed → c'.world.motor.currentCmd.cmdId = cmd.cmdId := by
    rintro rfl
    exact congrArg (·.cmdId) (Executed.command hst')
  unfold Carried at h ⊢
  by_cases hexecuted : st = .executed
  · subst hexecuted
    rw [if_pos rfl] at h
    rw [if_pos (hlater (.inl rfl))]
    refine h.step hdt hph honeTick hstamped hstep hc ?_
    rintro ⟨t, cmd', rfl⟩
    exact Executed.frames hst t _ hstep.mem_stack ⟨cmd', rfl⟩
  · rw [if_neg hexecuted] at h
    by_cases hcall : ∃ t cmd', a = (t, some (.call .motor (.motorSequence cmd')))
    · rw [if_pos (hlater (.inr hcall))]
      have hmotor := hcommand (hlater (.inr hcall))
      obtain ⟨t, cmd', rfl⟩ := hcall
      -- The only sequence `MotorService` is called with is this one.
      obtain rfl : cmd' = cmd := by
        cases st with
        | waiting => exact absurd ⟨cmd', rfl⟩ (Waiting.frames hst t _ hstep.mem_stack)
        | executed => exact absurd rfl hexecuted
        | given =>
            by_cases ht : t = .bridge
            · have hmem := hstep.mem_stack
              rw [ht, Given.bridge hst] at hmem
              simpa using List.mem_singleton.1 hmem
            · exact absurd ⟨cmd', rfl⟩ (Given.others hst t ht _ hstep.mem_stack)
      cases hc with
      | sequence hw hticks => exact h.start hn hd hw hticks
      | elsewhere hun _ => exact absurd (hun.motor ▸ hmotor) h.motor
      | announce hw _ | leave hw _ =>
          rw [hw] at hmotor
          exact absurd hmotor h.motor
    · have hunheard := h.step hc hcall
      rw [if_neg fun hexecuted' => hunheard.motor (hcommand hexecuted')]
      exact hunheard

end Steps

/-! ## At the end -/

/-- The ticks published with the id, oldest first. -/
def ticksFor (cmdId : Nat) (history : List (Record F)) : List PhysicsTickPayload :=
  ((history.filterMap publishedTick).filter fun tick => tick.cmdId = cmdId).reverse

omit [FloatOps F] in
/-- **The ticks of a command that is through**: its schedule, and then those of a motor at rest. -/
theorem OnSchedule.ticksFor_eq {pf : Platform F} {c : AppConfig F} {cmd : MotorSequencePayload}
    {ph : Phase} (h : OnSchedule pf cmd c ph) (hoff : c.world.motor.active = false)
    (hemitted : Emitted c) (honeTick : OneTick c) :
    ∃ idle, ticksFor cmd.cmdId c.world.history =
      (schedule pf.kTickUs cmd).map (stepTick pf.kTickUs cmd) ++
        List.replicate idle ⟨cmd.cmdId, 0, pf.kTickUs⟩ := by
  obtain ⟨done, idle, hschedule, -, htaken⟩ := h.taken
  have hnone : c.world.motor.remaining pf.kTickUs cmd = [] := by
    simp [MotorService.remaining, hoff]
  rw [hnone, List.append_nil] at hschedule
  subst hschedule
  -- What has been published is all that was taken, the pending tick maybe excepted.
  have hpublished : ∃ idle', (c.world.history.filterMap publishedTick).filter
      (fun tick => tick.cmdId = cmd.cmdId) =
        List.replicate idle' ⟨cmd.cmdId, 0, pf.kTickUs⟩ ++
          ((schedule pf.kTickUs cmd).map (stepTick pf.kTickUs cmd)).reverse := by
    unfold takenFor at htaken
    rw [hemitted, List.filter_append] at htaken
    have hsub := unpublishedTicks_sublist c
    have hpending := h.pending
    rw [hnone] at hpending
    have hlen := honeTick.atMostOne
    revert hsub hpending hlen htaken
    generalize unpublishedTicks c = unpublished
    rcases pendingTicks c with _ | ⟨tick, _ | ⟨_, _⟩⟩ <;> intro htaken hsub hpending hlen
    · obtain rfl := List.sublist_nil.1 hsub
      exact ⟨idle, htaken⟩
    · rcases List.sublist_singleton.1 hsub with rfl | rfl
      · by_cases hid : tick.cmdId = cmd.cmdId
        · obtain rfl := hpending tick List.mem_cons_self hid
          refine ⟨idle + 1, htaken.trans ?_⟩
          simp [List.replicate_succ, nextSpeed]
        · refine ⟨idle, htaken.trans ?_⟩
          simp [hid]
      · rw [List.append_assoc] at htaken
        exact ⟨idle, List.append_cancel_left htaken⟩
    · simp at hlen
  obtain ⟨idle', hpublished⟩ := hpublished
  refine ⟨idle', ?_⟩
  rw [ticksFor, hpublished, List.reverse_append, List.reverse_reverse, List.reverse_replicate]

end App

end ReflectPytest
