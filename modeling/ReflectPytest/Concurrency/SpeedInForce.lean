import ReflectPytest.Concurrency.AppThreads
import ReflectPytest.Autonomous.StopInForce
import ReflectPytest.Library.Sections

set_option autoImplicit false

/-! # The speed in force and the region in use

Whenever `AutonomousService` takes up a command, a region or a node it publishes the speed computed
for it. The region is shared with `EnvironmentService`, though, and an update of it is published by
nobody. `speed_tracks` says that this is the only way for the speed in force to fall behind,
whatever the threads do. -/

namespace ReflectPytest

open SyncBus FloatOps

variable {F : Type}

/-- The last motor sequence among the messages. -/
def lastSequence (ms : List (Msg F)) : Option MotorSequencePayload :=
  (ms.filterMap fun
    | .motorSequence seq => some seq
    | _ => none).getLast?

theorem lastSequence_messages (es : List (Effect F)) : lastSequence (messages es) = inForce es :=
  rfl

variable [FloatOps F]

/-- The update keeps what the speed is computed from: the limit and, with tuning, which side of 5 %
    the incline is on. -/
structure SameDemand (cmd : AutoDriveCommandPayload F) (old new : EnvironmentPayload F) : Prop where
  limit : new.maxSpeedRpm = old.maxSpeedRpm
  steep : cmd.useEnvironmentTuning = true →
    lt (lit 5) (FloatOps.abs new.inclinePercent) = lt (lit 5) (FloatOps.abs old.inclinePercent)

instance [DecidableEq F] (cmd : AutoDriveCommandPayload F) (old new : EnvironmentPayload F) :
    Decidable (SameDemand cmd old new) :=
  decidable_of_iff (new.maxSpeedRpm = old.maxSpeedRpm ∧ (cmd.useEnvironmentTuning = true →
      lt (lit 5) (FloatOps.abs new.inclinePercent) = lt (lit 5) (FloatOps.abs old.inclinePercent)))
    ⟨fun h => ⟨h.1, h.2⟩, fun h => ⟨h.limit, h.steep⟩⟩

namespace AutonomousService

/-- With an active route, the speed in force is the one of the drive computed now. -/
def UpToDate (deref : EnvPtr → EnvironmentPayload F) (s : AutonomousService F)
    (seq : Option MotorSequencePayload) : Prop :=
  s.routeActive = true → seq.map MotorSequencePayload.speedRpm =
    some (s.motorSequence deref).speedRpm

variable {deref deref' : EnvPtr → EnvironmentPayload F} {s s' : AutonomousService F}
  {seq : Option MotorSequencePayload}

theorem motorSequence_speedRpm : (s.motorSequence deref).speedRpm = toInt16 (s.targetSpeed deref) :=
  rfl

/-- The speed depends on the command and the region in use only. -/
theorem targetSpeed_congr (hcmd : s'.cmd = s.cmd) (hptr : s'.currentEnvPtr = s.currentEnvPtr) :
    s'.targetSpeed deref = s.targetSpeed deref := by
  unfold targetSpeed
  rw [hcmd, hptr]

/-- Of the region in use it depends on the limit and the incline only. -/
theorem targetSpeed_sameDemand
    (h : ∀ p ∈ s.currentEnvPtr, SameDemand s.cmd (deref p) (deref' p)) :
    s.targetSpeed deref' = s.targetSpeed deref := by
  unfold targetSpeed
  rcases Option.eq_none_or_eq_some s.currentEnvPtr with hnone | ⟨p, hp⟩
  · rw [hnone]
    cases s.cmd.useEnvironmentTuning <;> rfl
  · have hsame := h p hp
    rw [hp]
    dsimp only
    rw [hsame.limit]
    cases htuning : s.cmd.useEnvironmentTuning with
    | false => rfl
    | true => simp only [hsame.steep htuning]

/-- A section that keeps the command, the region and the flag, and publishes no sequence. -/
theorem UpToDate.keep (h : s.UpToDate deref seq) (hcmd : s'.cmd = s.cmd)
    (hptr : s'.currentEnvPtr = s.currentEnvPtr) (hactive : s'.routeActive = s.routeActive) :
    s'.UpToDate deref seq := by
  intro hon
  rw [motorSequence_speedRpm, targetSpeed_congr hcmd hptr]
  exact h (hactive ▸ hon)

/-- A section that ends with the publish of a drive, if the route is active. -/
theorem tracks_publish (es : List (Effect F)) : s.UpToDate deref ((inForce (es ++
    if s.routeActive then s.publishMotorSequenceForCurrentNode deref else [])).or seq) := by
  intro hon
  rw [if_pos hon]
  simp [inForce, sequences, publishMotorSequenceForCurrentNode]

theorem onAutoDriveCommand_tracks (cmd : AutoDriveCommandPayload F) :
    (s.onAutoDriveCommand deref cmd).1.UpToDate deref
      ((inForce (s.onAutoDriveCommand deref cmd).2).or seq) :=
  tracks_publish (s := s.acceptCommand cmd) []

theorem onInternalEnvData_tracks (env : InternalEnvDataPayload) :
    (s.onInternalEnvData deref env).1.UpToDate deref
      ((inForce (s.onInternalEnvData deref env).2).or seq) :=
  tracks_publish (s := (s.onInternalEnvData deref env).1) _

/-- The check of a node publishes a drive, ends the route, or leaves everything as it was. -/
theorem checkNode_tracks (h : s.UpToDate deref seq) (idx : Nat) (kin : KinematicsPayload F) :
    (s.checkNode deref idx kin).1.UpToDate deref
      ((inForce (s.checkNode deref idx kin).2).or seq) := by
  cases hreached : reached (s.node idx).targetPos.x s.lastPosM kin.positionM with
  | false =>
      rw [checkNode_miss deref hreached]
      exact h
  | true =>
      rw [checkNode_hit deref hreached]
      unfold advanceNode
      dsimp only
      split
      · exact fun hon => absurd hon Bool.false_ne_true
      · intro _
        simp [inForce, sequences, publishMotorSequenceForCurrentNode]

end AutonomousService

/-- **An update of a cached region** overwrites that region and leaves every other one alone. -/
theorem EnvironmentService.deref_onEnvironmentData {s : EnvironmentService F} {p : EnvPtr}
    (hp : p < s.cache.length) (env : EnvironmentPayload F) :
    (s.onEnvironmentData env).1.deref p = s.deref p ∨
      ((s.onEnvironmentData env).1.deref p = env ∧ (s.deref p).regionId = env.regionId) := by
  unfold onEnvironmentData deref
  dsimp only
  split
  · next i hi =>
      obtain ⟨hlt, hid, -⟩ := List.findIdx?_eq_some_iff_getElem.1 hi
      by_cases hpi : i = p
      · subst hpi
        refine Or.inr ⟨by simp [hlt], ?_⟩
        simpa [hlt] using hid
      · exact Or.inl (by simp [List.getElem?_set_ne hpi])
  · exact Or.inl (by simp [List.getElem?_append_left hp])

namespace App

/-! ## Sections -/

/-- A message with a pointer points into the cache. -/
def Addressed (m : Msg F) (w : World F) : Prop :=
  ∀ env, m = .internalEnvData env → env.ptr < w.environment.cache.length

/-- `AutonomousService.UpToDate`, in the world as it is. -/
def UpToDate (w : World F) (seq : Option MotorSequencePayload) : Prop :=
  w.autonomous.UpToDate w.environment.deref seq

/-- What the later sections of a handler do: regions are left alone, and the speed in force is kept
    up by `AutonomousService`, the only one to change the mission. -/
structure Later (lock : Option Mutex) (w : World F) (r : World F × List (Msg F)) : Prop where
  cache : r.1.environment.cache = w.environment.cache
  pointer : r.1.autonomous.currentEnvPtr = w.autonomous.currentEnvPtr
  silent : ∀ m ∈ r.2, ∀ env, m ≠ .internalEnvData env
  mission : lock ≠ some .autonomous → r.1.autonomous = w.autonomous
  tracks : lock = some .autonomous → ∀ seq, UpToDate w seq →
    UpToDate r.1 ((lastSequence r.2).or seq)

theorem code_rest (pf : Platform F) (h : Service) (m : Msg F) :
    (code pf h m).Rest (Later h.mutex) := by
  cases h <;> cases m <;> try exact Code.rest_single _ _
  all_goals try trivial
  case environment.internalEnvRequest req =>
      intro w
      dsimp only
      split
      · exact ⟨fun w => ⟨rfl, rfl, fun m hm => absurd hm List.not_mem_nil, fun _ => rfl,
          fun h => nomatch h⟩, fun _ => trivial⟩
      · trivial
  case autonomous.kinematicsData kin =>
      intro w
      dsimp only
      split
      · trivial
      · refine ⟨fun w => ?_, fun _ => ⟨fun w => ?_, fun _ => trivial⟩⟩
        · exact { cache := rfl
                  pointer := AutonomousService.checkNode_currentEnvPtr _ _ _ _
                  silent := by
                    rintro m hm env rfl
                    have hid := publishesOnly_checkNode _ _ _ _ _ hm
                    exact absurd hid (by simp [Msg.id])
                  mission := fun hlock => absurd rfl hlock
                  tracks := fun _ _ hseq => AutonomousService.checkNode_tracks hseq _ kin }
        · exact { cache := rfl
                  pointer := rfl
                  silent := fun m hm => absurd hm List.not_mem_nil
                  mission := fun hlock => absurd rfl hlock
                  tracks := fun _ _ hseq => hseq.keep rfl rfl rfl }

/-- Regions are handed out by `EnvironmentService`, in answer to a request, and by nobody else. -/
theorem answers_internalEnvData {h : Service} {id : MsgId}
    (hid : MsgId.internalEnvData ∈ h.answers id) :
    h = .environment ∧ id = .internalEnvRequest := by
  revert hid
  cases h <;> cases id <;> decide

/-- What a handler publishes first is addressed. -/
theorem first_addressed (pf : Platform F) (h : Service) (m : Msg F) (w : World F) :
    ∀ m' ∈ ((code pf h m).first w).2, Addressed m' ((code pf h m).first w).1 := by
  rintro m' hm' env rfl
  obtain ⟨rfl, hid⟩ := answers_internalEnvData ((code_emits pf h m).first w _ hm')
  cases m with
  | internalEnvRequest req =>
      have hanswer : .internalEnvData env ∈ (answerRequest req w).2 := hm'
      unfold answerRequest at hanswer
      dsimp only at hanswer
      split at hanswer
      · next p hp =>
          obtain rfl := Msg.internalEnvData.inj (List.mem_singleton.1 hanswer)
          exact EnvironmentService.lookup_lt hp
      · split at hanswer <;> simp at hanswer
  | _ => simp [Msg.id] at hid

/-- No section drops a region. -/
theorem first_cache (pf : Platform F) (h : Service) (m : Msg F) (w : World F) :
    w.environment.cache.length ≤ ((code pf h m).first w).1.environment.cache.length := by
  cases h <;> cases m <;> try exact le_refl _
  case environment.environmentData env => exact w.environment.onEnvironmentData_length env
  case autonomous.kinematicsData kin =>
      show _ ≤ (requestStretch kin w).1.environment.cache.length
      unfold requestStretch
      split <;> exact le_refl _

omit [FloatOps F] in
theorem start_addressed {pf : Platform F} {t : Thread} {w w' : World F} {ms : List (Msg F)}
    (h : Start pf t w w' ms) : w'.environment = w.environment ∧ w'.autonomous = w.autonomous ∧
      ∀ m ∈ ms, Addressed m w' := by
  cases h with
  | snapshot _ | wait _ => exact ⟨rfl, rfl, fun m hm => absurd hm List.not_mem_nil⟩
  | tick _ =>
      refine ⟨rfl, rfl, fun m hm env he => ?_⟩
      rw [he] at hm
      exact absurd (List.mem_singleton.1 hm) (by simp)
  | datagram hauth =>
      refine ⟨rfl, rfl, fun m hm env he => ?_⟩
      rw [← List.mem_singleton.1 hm, he] at hauth
      exact absurd hauth (by simp [authorized, Msg.id, Service.publishes])

/-- Frames carry addressed messages. -/
theorem carrying (pf : Platform F) : (machine pf).Carrying Addressed Later fun w w' =>
    w.environment.cache.length ≤ w'.environment.cache.length where
  up m w w' hle hm env he := (hm env he).trans_le hle
  start t w w' ms hstart := by
    obtain ⟨henvironment, -, hms⟩ := start_addressed hstart
    exact ⟨henvironment ▸ le_refl _, hms⟩
  record _ _ := le_refl _
  refl _ := le_refl _
  first h m w _ := ⟨first_cache pf h m w, first_addressed pf h m w⟩
  rest h m := code_rest pf h m
  later lock w r hr := ⟨hr.cache ▸ le_refl _, fun m hm env he => absurd he (hr.silent m hm env)⟩

/-! ## What a call does first -/

section First

variable (pf : Platform F) {h : Service} (m : Msg F) (w : World F)

/-- Only its own handlers change `AutonomousService`. -/
theorem first_autonomous (hh : h ≠ .autonomous) :
    ((code pf h m).first w).1.autonomous = w.autonomous := by
  cases h <;> cases m <;> first | rfl | exact absurd rfl hh

/-- Only `EnvironmentData` changes a region. -/
theorem first_regions (hm : ∀ env, ¬ (h = .environment ∧ m = .environmentData env)) :
    ((code pf h m).first w).1.environment.cache = w.environment.cache := by
  cases h <;> cases m <;> try rfl
  case environment.environmentData env => exact absurd ⟨rfl, rfl⟩ (hm env)
  case autonomous.kinematicsData kin =>
      show (requestStretch kin w).1.environment.cache = w.environment.cache
      unfold requestStretch
      split <;> rfl

/-- A call for an addressed message leaves a pointer into the cache. -/
theorem first_pointer (hw : ∀ p ∈ w.autonomous.currentEnvPtr, p < w.environment.cache.length)
    (hm : Addressed m w) : ∀ p ∈ ((code pf h m).first w).1.autonomous.currentEnvPtr,
      p < ((code pf h m).first w).1.environment.cache.length := by
  intro p hp
  refine lt_of_lt_of_le ?_ (first_cache pf h m w)
  by_cases hh : h = .autonomous
  · subst hh
    cases m with
    | autoDriveCommand cmd => exact absurd (Option.mem_def.1 hp) (Option.some_ne_none p).symm
    | internalEnvData env =>
        have hptr := w.autonomous.onInternalEnvData_currentEnvPtr w.environment.deref env
        obtain rfl := Option.some.inj (hptr.symm.trans hp)
        exact hm env rfl
    | kinematicsData kin =>
        have hptr : (requestStretch kin w).1.autonomous.currentEnvPtr =
            w.autonomous.currentEnvPtr := by
          unfold requestStretch
          split <;> rfl
        exact hw p (hptr ▸ hp)
    | _ => exact hw p hp
  · rw [first_autonomous pf m w hh] at hp
    exact hw p hp

variable {w} {seq : Option MotorSequencePayload}

/-- Each handler of `AutonomousService` keeps the speed in force up. -/
theorem first_tracks (hw : UpToDate w seq) : UpToDate ((code pf .autonomous m).first w).1
    ((lastSequence ((code pf .autonomous m).first w).2).or seq) := by
  cases m with
  | autoDriveCommand cmd => exact AutonomousService.onAutoDriveCommand_tracks cmd
  | internalEnvData env => exact AutonomousService.onInternalEnvData_tracks env
  | powerData power => exact hw.keep rfl rfl rfl
  | physicsTick tick =>
      have hnone : inForce w.autonomous.onPhysicsTick = none := by
        unfold AutonomousService.onPhysicsTick
        split <;> rfl
      show UpToDate w ((inForce w.autonomous.onPhysicsTick).or seq)
      rw [hnone]
      exact hw
  | kinematicsData kin =>
      show UpToDate (requestStretch kin w).1 ((lastSequence (requestStretch kin w).2).or seq)
      unfold requestStretch
      split
      · exact hw.keep rfl rfl rfl
      · have hnone : inForce (w.autonomous.requestEnvironment w.environment.deref kin) = none := by
          simp [inForce, AutonomousService.sequences_requestEnvironment]
        rw [lastSequence_messages, hnone]
        exact hw
  | _ => exact hw

end First

/-! ## Steps -/

/-- What `AutonomousService` publishes in a step. -/
def spoken (pf : Platform F) (c : AppConfig F) (a : Thread × Option (AppFrame F)) : List (Msg F) :=
  match a.2 with
  | some (.call .autonomous m) => ((code pf .autonomous m).first c.world).2
  | some (.resume code (some .autonomous)) => (code.first c.world).2
  | _ => []

/-- Remember the last motor sequence `AutonomousService` has published. -/
def noteSequence (pf : Platform F) (c : AppConfig F) (a : Thread × Option (AppFrame F))
    (_ : AppConfig F) (seq : Option MotorSequencePayload) : Option MotorSequencePayload :=
  (lastSequence (spoken pf c a)).or seq

/-- The update `EnvironmentService` is called for. -/
def updatedRegion : Option (AppFrame F) → Option (EnvironmentPayload F)
  | some (.call .environment (.environmentData env)) => some env
  | _ => none

/-- An update handled during a route keeps what the speed in the region in use is computed from. -/
def Undisturbed (x : AppConfig F × Option MotorSequencePayload)
    (a : Thread × Option (AppFrame F)) : Prop :=
  ∀ env ∈ updatedRegion a.2, x.1.world.autonomous.routeActive = true →
    ∀ p ∈ x.1.world.autonomous.currentEnvPtr,
      (x.1.world.environment.deref p).regionId = env.regionId →
        SameDemand x.1.world.autonomous.cmd (x.1.world.environment.deref p) env

theorem UpToDate.congr {w w' : World F} {seq : Option MotorSequencePayload} (h : UpToDate w seq)
    (hautonomous : w'.autonomous = w.autonomous)
    (hcache : w'.environment.cache = w.environment.cache) : UpToDate w' seq := by
  have hderef : w'.environment.deref = w.environment.deref := by
    funext p
    unfold EnvironmentService.deref
    rw [hcache]
  unfold UpToDate
  rw [hautonomous, hderef]
  exact h

/-- An update that keeps the demand of the region in use keeps the speed. -/
theorem update_tracks {w : World F} {seq : Option MotorSequencePayload} (h : UpToDate w seq)
    (hpointer : ∀ p ∈ w.autonomous.currentEnvPtr, p < w.environment.cache.length)
    (env : EnvironmentPayload F) (hsame : w.autonomous.routeActive = true →
      ∀ p ∈ w.autonomous.currentEnvPtr, (w.environment.deref p).regionId = env.regionId →
        SameDemand w.autonomous.cmd (w.environment.deref p) env) :
    w.autonomous.UpToDate (w.environment.onEnvironmentData env).1.deref seq := by
  intro hactive
  have hspeed : w.autonomous.targetSpeed (w.environment.onEnvironmentData env).1.deref =
      w.autonomous.targetSpeed w.environment.deref := by
    refine AutonomousService.targetSpeed_sameDemand fun p hp => ?_
    rcases EnvironmentService.deref_onEnvironmentData (hpointer p hp) env with hkept | ⟨hnew, hid⟩
    · rw [hkept]
      exact ⟨rfl, fun _ => rfl⟩
    · rw [hnew]
      exact hsame hactive p hp hid
  rw [AutonomousService.motorSequence_speedRpm, hspeed]
  exact h hactive

/-- What holds of every configuration, next to the last motor sequence. -/
structure InStep (c : AppConfig F) (seq : Option MotorSequencePayload) : Prop where
  frames : ∀ t, ∀ f ∈ c.stack t, f.Carries Addressed Later c.world
  pointer : ∀ p ∈ c.world.autonomous.currentEnvPtr, p < c.world.environment.cache.length
  tracks : UpToDate c.world seq

/-- **Step lemma.** -/
theorem InStep.step {pf : Platform F} {c c' : AppConfig F} {seq : Option MotorSequencePayload}
    {a : Thread × Option (AppFrame F)} (h : InStep c seq) (hundisturbed : Undisturbed (c, seq) a)
    (hstep : (machine pf).Step c a c') : InStep c' (noteSequence pf c a c' seq) := by
  refine ⟨(carrying pf).step h.frames hstep, ?_, ?_⟩
  · cases hstep.does with
    | starts hs =>
        obtain ⟨henvironment, hautonomous, -⟩ := start_addressed hs
        rw [henvironment, hautonomous]
        exact h.pointer
    | records hw => exact hw ▸ h.pointer
    | @calls t s m hw =>
        rw [hw]
        exact first_pointer pf m c.world h.pointer (h.frames t _ hstep.mem_stack)
    | @resumes t code lock hw =>
        have hcode : code.All (Later lock) := h.frames t _ hstep.mem_stack
        rw [hw]
        cases code with
        | done => exact h.pointer
        | step sec next =>
            have hlater := hcode.1 c.world
            rw [Code.first, hlater.pointer, hlater.cache]
            exact h.pointer
  · cases hstep.does with
    | starts hs =>
        obtain ⟨henvironment, hautonomous, -⟩ := start_addressed hs
        exact h.tracks.congr hautonomous (by rw [henvironment])
    | records hw => exact hw ▸ h.tracks
    | @calls t s m hw =>
        by_cases hs : s = .autonomous
        · subst hs
          rw [hw]
          exact first_tracks pf m h.tracks
        · have hsilent : noteSequence pf c (t, some (.call s m)) c' seq = seq := by
            cases s <;> first | rfl | exact absurd rfl hs
          rw [hsilent]
          by_cases hupdate : ∃ env, s = .environment ∧ m = .environmentData env
          · obtain ⟨env, rfl, rfl⟩ := hupdate
            rw [hw]
            exact update_tracks h.tracks h.pointer env (hundisturbed env rfl)
          · rw [hw]
            exact h.tracks.congr (first_autonomous pf m c.world hs)
              (first_regions pf m c.world fun env he => hupdate ⟨env, he⟩)
    | @resumes t code lock hw =>
        have hcode : code.All (Later lock) := h.frames t _ hstep.mem_stack
        rw [hw]
        by_cases hlock : lock = some .autonomous
        · subst hlock
          cases code with
          | done => exact h.tracks
          | step sec next => exact (hcode.1 c.world).tracks rfl seq h.tracks
        · have hsilent : noteSequence pf c (t, some (.resume code lock)) c' seq = seq := by
            match lock, hlock with
            | none, _ | some .motor, _ | some .environment, _ => rfl
            | some .autonomous, hlock => exact absurd rfl hlock
          rw [hsilent]
          cases code with
          | done => exact h.tracks
          | step sec next =>
              exact h.tracks.congr ((hcode.1 c.world).mission hlock) (hcode.1 c.world).cache

/-! ## Runs -/

/-- **The motor command tracks the region in use**: in every run of the threads in which no update
    handled during a route changes the limit or the steepness of the region in use, whenever a route
    is active the speed `AutonomousService` published last is the one it would compute now. -/
theorem speed_tracks (pf : Platform F) {x : AppConfig F × Option MotorSequencePayload}
    (hrun : (machine pf).Watched (noteSequence pf) Undisturbed (start, none) x)
    (hactive : x.1.world.autonomous.routeActive = true) :
    x.2.map MotorSequencePayload.speedRpm =
      some (x.1.world.autonomous.motorSequence x.1.world.environment.deref).speedRpm := by
  have hkept : InStep x.1 x.2 := by
    refine hrun.invariant (I := fun x => InStep x.1 x.2) ?_ ?_
    · exact ⟨fun t f hf => absurd hf List.not_mem_nil, fun p hp => absurd hp (by simp [start,
        World.init, AutonomousService.init]), fun hon => absurd hon Bool.false_ne_true⟩
    · exact fun c g a c' hI hP hs => hI.step hP hs
  exact hkept.tracks hactive

/-! ## A region that changes its limit -/

instance (x : AppConfig ℚ × Option MotorSequencePayload) (a : Thread × Option (AppFrame ℚ)) :
    Decidable (Undisturbed x a) :=
  inferInstanceAs (Decidable (∀ env ∈ updatedRegion a.2, _ → ∀ p ∈ _, _ → _))

/-- The track from 0 to 10 m, with a limit. -/
def limited (maxSpeedRpm : ℚ) : EnvironmentPayload ℚ :=
  { (default : EnvironmentPayload ℚ) with
    regionId := 1
    bounds := ⟨⟨0, -1⟩, ⟨10, 1⟩⟩
    maxSpeedRpm := maxSpeedRpm }

/-- The bridge handles a datagram to its end. -/
def handle (m : Msg ℚ) : List (Move ℚ) := .datagram m :: List.replicate 40 (.advance .bridge)

/-- A region, a tuned route, and a sample that finds the region. -/
def driveInRegion : List (Move ℚ) :=
  handle (.environmentData (limited 1000)) ++
    handle (.autoDriveCommand { (default : AutoDriveCommandPayload ℚ) with
      numNodes := 1, useEnvironmentTuning := true, route := fun _ => ⟨⟨9, 0⟩, 5000⟩ }) ++
    handle .kinematicsRequest

/-- After a schedule: the route is active, the speeds in force and computed now, and nothing is
    running. -/
def speeds (P : AppConfig ℚ × Option MotorSequencePayload → Thread × Option (AppFrame ℚ) → Prop)
    [∀ x a, Decidable (P x a)] (mvs : List (Move ℚ)) : Option (Bool × Option Int × Int × Bool) :=
  (playWatched (.libstdcxx fun _ _ => 0) (noteSequence (.libstdcxx fun _ _ => 0)) P (start, none)
    mvs).map fun x => (x.1.world.autonomous.routeActive, x.2.map MotorSequencePayload.speedRpm,
      (x.1.world.autonomous.motorSequence x.1.world.environment.deref).speedRpm,
      decide (∀ t, (x.1.stack t).isEmpty = true))

/-- Half the limit, and the vehicle keeps driving at 750 rpm. -/
theorem newLimit_ignored :
    ¬ ∀ (pf : Platform ℚ) (x : AppConfig ℚ × Option MotorSequencePayload),
      (machine pf).Watched (noteSequence pf) (fun _ _ => True) (start, none) x →
        (∀ t, (x.1.stack t).isEmpty = true) → x.1.world.autonomous.routeActive = true →
          x.2.map MotorSequencePayload.speedRpm =
            some (x.1.world.autonomous.motorSequence x.1.world.environment.deref).speedRpm := by
  intro hall
  have hspeeds : speeds (fun _ _ => True) (driveInRegion ++
      handle (.environmentData (limited 500))) = some (true, some 750, 375, true) := by
    decide +kernel
  obtain ⟨x, hx, hfacts⟩ := Option.map_eq_some_iff.1 hspeeds
  obtain ⟨hactive, hforce, hnow, hrest⟩ : _ ∧ _ ∧ _ ∧ _ := by simpa using hfacts
  have htracks := hall _ x (playWatched_watched hx) (by simpa using hrest) hactive
  rw [show x.2.map MotorSequencePayload.speedRpm = some 750 by simpa using hforce, hnow] at htracks
  exact absurd (Option.some.inj htracks) (by decide)

/-- The same limit again. -/
theorem sameLimit_tracks : ∃ x : AppConfig ℚ × Option MotorSequencePayload,
    x.1.world.autonomous.routeActive = true ∧ x.2.map MotorSequencePayload.speedRpm =
      some (x.1.world.autonomous.motorSequence x.1.world.environment.deref).speedRpm := by
  have hspeeds : speeds Undisturbed (driveInRegion ++
      handle (.environmentData (limited 1000))) = some (true, some 750, 750, true) := by
    decide +kernel
  obtain ⟨x, hx, hfacts⟩ := Option.map_eq_some_iff.1 hspeeds
  have hactive := (Prod.mk.inj hfacts).1
  exact ⟨x, hactive, speed_tracks _ (playWatched_watched hx) hactive⟩

end App

end ReflectPytest
