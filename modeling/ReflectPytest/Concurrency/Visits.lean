import ReflectPytest.Concurrency.AppThreads
import ReflectPytest.Autonomous.Waypoints
import ReflectPytest.Library.Monitors

set_option autoImplicit false

/-! # Waypoints that are counted and waypoints that are visited

A node counts as reached when a sample is on the other side of it than `last_pos_m_`. Positions are
remembered from samples only, and samples are polled only while a route is active, so a route may
find a remembered position from long ago: a node between it and the vehicle is counted by the first
sample, wherever the vehicle has been since. `counted_visited` says that this is all that can go
wrong, as long as the product in the crossing test does not underflow. -/

namespace ReflectPytest

open SyncBus FloatOps

namespace App

/-! ## The monitor of AutonomousService -/

section Monitor

variable {F : Type} [FloatOps F]

/-- What is published from inside the handlers that change the mission, and in answer to that. -/
def shelteredIds : List MsgId :=
  [.internalEnvRequest, .internalEnvData, .environmentRequest, .motorSequence, .motorStatus,
    .autoDriveStatus]

/-- The mission of `AutonomousService` changes in two of its handlers only. -/
def missionMonitor :
    Monitor Service (World F) (Msg F) Mutex (AutoDriveCommandPayload F × Nat × Bool × F) where
  mutex := .autonomous
  view w := (w.autonomous.cmd, w.autonomous.currentNodeIdx, w.autonomous.routeActive,
    w.autonomous.lastPosM)
  Enters h m := h = .autonomous ∧ (m.id = .autoDriveCommand ∨ m.id = .kinematicsData)
  Sheltered m := m.id ∈ shelteredIds

theorem answers_sheltered {h : Service} {id id' : MsgId} (hid : id ∈ shelteredIds)
    (hid' : id' ∈ h.answers id) : id' ∈ shelteredIds := by
  simp only [shelteredIds, List.mem_cons, List.not_mem_nil, or_false] at hid
  rcases hid with rfl | rfl | rfl | rfl | rfl | rfl <;> cases h <;>
    simp only [Service.answers, List.not_mem_nil] at hid' <;> revert hid' <;> revert id' <;> decide

/-- All other handlers leave the mission alone. -/
theorem code_leaves (pf : Platform F) {h : Service} {m : Msg F}
    (hm : ¬ missionMonitor.Enters h m) : missionMonitor.Leaves (code pf h m) := by
  cases h <;> cases m <;>
    simp only [missionMonitor, Monitor.Leaves, code, update, Code.grows_done, Code.grows_single,
      implies_true]
  case environment.internalEnvRequest req =>
      refine ⟨fun _ => rfl, fun w => ?_⟩
      dsimp only
      split
      · exact (Code.grows_single _ _).2 fun _ => rfl
      · trivial
  case autonomous.autoDriveCommand cmd => exact absurd ⟨rfl, .inl rfl⟩ hm
  case autonomous.kinematicsData kin => exact absurd ⟨rfl, .inr rfl⟩ hm
  case autonomous.internalEnvData env =>
      intro w
      have hsame := w.autonomous.onInternalEnvData_mission w.environment.deref env
      simp only [hsame.cmd, hsame.node, hsame.active, hsame.lastPos]
  case autonomous.powerData power => exact fun _ => rfl

omit [FloatOps F] in
/-- The mission changes with a command and with a sample. -/
theorem enters_cases {h : Service} {m : Msg F} (henters : missionMonitor.Enters h m) :
    h = .autonomous ∧ ((∃ cmd, m = .autoDriveCommand cmd) ∨ ∃ kin, m = .kinematicsData kin) := by
  obtain ⟨hservice, hid⟩ := henters
  refine ⟨hservice, ?_⟩
  cases m with
  | autoDriveCommand cmd => exact .inl ⟨cmd, rfl⟩
  | kinematicsData kin => exact .inr ⟨kin, rfl⟩
  | _ => simp [Msg.id] at hid

theorem mission_guards (pf : Platform F) : missionMonitor.Guards (machine pf) where
  record _ _ := rfl
  start := by
    rintro t w w' ms hstart
    cases hstart <;> rfl
  entry := by
    intro h m henters
    have hemits := code_emits pf .autonomous m
    obtain ⟨rfl, ⟨cmd, rfl⟩ | ⟨kin, rfl⟩⟩ := enters_cases henters
    · have hids : ∀ id ∈ Service.answers .autonomous .autoDriveCommand, id ∈ shelteredIds := by
        decide
      exact ⟨_, _, rfl, rfl, hemits.mono fun m' hm' => hids _ hm'⟩
    · have hids : ∀ id ∈ Service.answers .autonomous .kinematicsData, id ∈ shelteredIds := by
        decide
      exact ⟨_, _, rfl, rfl, hemits.mono fun m' hm' => hids _ hm'⟩
  leaves := code_leaves pf
  sheltered := by
    intro h m hm
    refine ⟨?_, (code_emits pf h m).mono fun m' hm' => answers_sheltered hm hm'⟩
    rintro ⟨-, hid | hid⟩
    · exact absurd (show m.id ∈ shelteredIds from hm) (hid ▸ by decide)
    · exact absurd (show m.id ∈ shelteredIds from hm) (hid ▸ by decide)

end Monitor

section

variable {F : Type} [FloatOps F] [FloatLaws F]

/-! ## Positions and targets -/

/-- The position lies in the range of the given ones. -/
def InRange (xs : List F) (t : F) : Prop := ∃ a ∈ xs, ∃ b ∈ xs, le a t = true ∧ le t b = true

instance (xs : List F) (t : F) : Decidable (InRange xs t) :=
  inferInstanceAs (Decidable (∃ a ∈ xs, ∃ b ∈ xs, _ ∧ _))

/-- The target does not lie between the remembered position and the vehicle, unless the vehicle is
    exactly there. -/
def Clear (target lastPosM positionM : F) : Prop :=
  (le positionM target = true ∧ le target positionM = true) ∨ SameSide target lastPosM positionM

instance (target lastPosM positionM : F) : Decidable (Clear target lastPosM positionM) :=
  inferInstanceAs (Decidable (_ ∨ _))

/-- The crossing test tells on which sides of the target the positions are: the product of the two
    distances does not underflow to zero. -/
def Decisive (target lastPosM positionM : F) : Prop :=
  le ((target - lastPosM) * (target - positionM)) 0 = true ↔ ¬ SameSide target lastPosM positionM

/-- The vehicle has passed the target, or has been on the side of the remembered position all the
    time. -/
def Tracked (target lastPosM : F) (xs : List F) : Prop :=
  InRange xs target ∨ (∃ x ∈ xs, SameSide target lastPosM x) ∧
    ∀ x ∈ xs, IsNumber x → SameSide target lastPosM x

omit [FloatLaws F] in
theorem InRange.cons {xs : List F} {t : F} (h : InRange xs t) (x : F) : InRange (x :: xs) t := by
  obtain ⟨a, ha, b, hb, hle⟩ := h
  exact ⟨a, List.mem_cons_of_mem _ ha, b, List.mem_cons_of_mem _ hb, hle⟩

section Tracked

variable {target lastPosM positionM : F} {xs : List F}

omit [FloatLaws F] in
theorem Clear.tracked (h : Clear target lastPosM positionM) :
    Tracked target lastPosM [positionM] := by
  rcases h with ⟨hle, hge⟩ | h
  · exact .inl ⟨_, List.mem_cons_self, _, List.mem_cons_self, hle, hge⟩
  · refine .inr ⟨⟨_, List.mem_cons_self, h⟩, fun x hx _ => ?_⟩
    rwa [List.mem_singleton.1 hx]

/-- A position that is not on the side of the others is on the other side, or at the target. -/
theorem inRange_of_not_sameSide {x y : F} (htarget : IsNumber target) (hy : y ∈ xs)
    (hside : SameSide target lastPosM y) (hx : IsNumber x)
    (hnot : ¬ SameSide target lastPosM x) : InRange (x :: xs) target := by
  have hx' := List.mem_cons_self (a := x) (l := xs)
  have hy' := List.mem_cons_of_mem x hy
  rcases hside with ⟨hlast, hty⟩ | ⟨hlast, hyt⟩
  · have hle : le x target = true :=
      FloatLaws.le_of_not_lt htarget hx fun hlt => hnot (.inl ⟨hlast, hlt⟩)
    exact ⟨x, hx', y, hy', hle, FloatLaws.le_of_lt hty⟩
  · have hle : le target x = true :=
      FloatLaws.le_of_not_lt hx htarget fun hlt => hnot (.inr ⟨hlast, hlt⟩)
    exact ⟨y, hy', x, hx', FloatLaws.le_of_lt hyt, hle⟩

/-- The vehicle moves on. -/
theorem Tracked.cons (h : Tracked target lastPosM xs) (htarget : IsNumber target) (x : F) :
    Tracked target lastPosM (x :: xs) := by
  rcases h with h | ⟨⟨y, hy, hside⟩, h⟩
  · exact .inl (h.cons x)
  by_cases hx : IsNumber x → SameSide target lastPosM x
  · refine .inr ⟨⟨y, List.mem_cons_of_mem x hy, hside⟩, fun z hz => ?_⟩
    rcases List.mem_cons.1 hz with rfl | hz
    · exact hx
    · exact h z hz
  · obtain ⟨hnumber, hnot⟩ := Classical.not_imp.1 hx
    exact .inl (inRange_of_not_sameSide htarget hy hside hnumber hnot)

/-- A sample on the side of the remembered position is remembered. -/
theorem Tracked.remember (h : Tracked target lastPosM xs)
    (hside : SameSide target lastPosM positionM) : Tracked target positionM xs := by
  rcases h with h | ⟨⟨y, hy, hother⟩, h⟩
  · exact .inl h
  · exact .inr ⟨⟨y, hy, hside.trans hother⟩, fun x hx hnumber => hside.trans (h x hx hnumber)⟩

/-- A sample that crosses the target was taken after the vehicle had passed it. -/
theorem Tracked.visited (h : Tracked target lastPosM xs) (hsample : InRange xs positionM)
    (hcross : ¬ SameSide target lastPosM positionM) : InRange xs target := by
  rcases h with h | ⟨-, h⟩
  · exact h
  obtain ⟨a, ha, b, hb, hle, hge⟩ := hsample
  have hlow := h a ha (FloatLaws.isNumber_of_le hle).1
  have hhigh := h b hb (FloatLaws.isNumber_of_le hge).2
  rcases hlow with ⟨hlast, hta⟩ | ⟨hlast, -⟩
  · exact absurd (.inl ⟨hlast, FloatLaws.lt_of_lt_of_le hta hle⟩) hcross
  · rcases hhigh with ⟨hlast', -⟩ | ⟨-, hbt⟩
    · exact absurd hlast' (FloatLaws.not_lt_of_le (FloatLaws.le_of_lt hlast))
    · exact absurd (.inr ⟨hlast, FloatLaws.lt_of_le_of_lt hge hbt⟩) hcross

/-- A node that a crossing counts has a target that is a number. -/
theorem isNumber_of_crossing
    (hcross : le ((target - lastPosM) * (target - positionM)) 0 = true) : IsNumber target := by
  have hproduct := (FloatLaws.isNumber_of_le hcross).1
  exact (FloatLaws.isNumber_of_sub (FloatLaws.isNumber_of_mul hproduct).1).1

end Tracked

/-! ## What is seen along a run -/

/-- Where the vehicle has been since the current node became the current one, and the position in
    the sample `AutonomousService` was called with last. -/
structure Sighting (F : Type) where
  since : List F
  sample : F

/-- The command a step hands to `AutonomousService`. -/
def commanded : Option (AppFrame F) → Option (AutoDriveCommandPayload F)
  | some (.call .autonomous (.autoDriveCommand cmd)) => some cmd
  | _ => none

/-- The sample a step hands to it. -/
def sampled : Option (AppFrame F) → Option (KinematicsPayload F)
  | some (.call .autonomous (.kinematicsData kin)) => some kin
  | _ => none

/-- The step counts the current node as reached. -/
def Counts (c : AppConfig F) (a : Thread × Option (AppFrame F)) (c' : AppConfig F) : Prop :=
  commanded a.2 = none ∧ c'.world.autonomous.currentNodeIdx ≠ c.world.autonomous.currentNodeIdx

/-- A new node becomes current with a command and when one is counted. -/
def watch (c : AppConfig F) (a : Thread × Option (AppFrame F)) (c' : AppConfig F) (g : Sighting F) :
    Sighting F where
  since :=
    if (commanded a.2).isSome ||
        c'.world.autonomous.currentNodeIdx != c.world.autonomous.currentNodeIdx then
      [c'.world.kinematics.positionM]
    else c'.world.kinematics.positionM :: g.since
  sample := (sampled a.2).elim g.sample KinematicsPayload.positionM

/-- The target of the current node. -/
def target (c : AppConfig F) : F :=
  c.world.autonomous.cmd.targetM c.world.autonomous.currentNodeIdx

/-- The vehicle is at the current node, by the sample, or has been there since it became current. -/
def Visited (x : AppConfig F × Sighting F) : Prop :=
  lt (FloatOps.abs (target x.1 - x.2.sample)) (lit (1 / 10)) = true ∨
    InRange x.2.since (target x.1)

/-- The second half of the handler of a sample. -/
abbrev checkCode (idx : Nat) (kin : KinematicsPayload F) : Code (World F) (Msg F) :=
  .step (checkStretch idx kin) fun _ => update (rememberStretch kin)

/-- `AutonomousService` is about to check the sample. -/
def Checks (c : AppConfig F) (a : Thread × Option (AppFrame F)) (kin : KinematicsPayload F) :
    Prop :=
  ∃ lock, a.2 = some (.resume (checkCode c.world.autonomous.currentNodeIdx kin) lock)

/-- It is about to check a sample, and the sample reaches the current node. -/
def Reaches (c : AppConfig F) (a : Thread × Option (AppFrame F)) : Prop :=
  ∃ kin, Checks c a kin ∧
    AutonomousService.reached (target c) c.world.autonomous.lastPosM kin.positionM = true

/-- No node becomes current that lies between the position remembered for it and the vehicle, no
    node is crossed by a sample from before it became current, and no distances are so small that
    their product underflows. -/
structure Unpassed (x : AppConfig F × Sighting F) (a : Thread × Option (AppFrame F)) : Prop where
  accepted : ∀ cmd, commanded a.2 = some cmd → 0 < cmd.numNodes → IsNumber (cmd.targetM 0) →
    Clear (cmd.targetM 0) x.1.world.autonomous.lastPosM x.1.world.kinematics.positionM
  decisive : ∀ kin, Checks x.1 a kin → IsNumber (target x.1) →
    Decisive (target x.1) x.1.world.autonomous.lastPosM kin.positionM
  next : Reaches x.1 a →
    let k := (x.1.world.autonomous.currentNodeIdx + 1) % 2 ^ 8
    k < x.1.world.autonomous.cmd.numNodes → IsNumber (x.1.world.autonomous.cmd.targetM k) →
      Clear (x.1.world.autonomous.cmd.targetM k) x.2.sample x.1.world.kinematics.positionM
  fresh : Reaches x.1 a → ¬ lt (FloatOps.abs (target x.1 - x.2.sample)) (lit (1 / 10)) = true →
    InRange x.2.since x.2.sample

/-- The current node has been passed, or the vehicle has stayed on the side of the position that
    will be compared with the next sample. -/
def OnTrack (s : AutonomousService F) (lastPosM : F) (since : List F) : Prop :=
  s.idle = false → IsNumber (s.cmd.targetM s.currentNodeIdx) →
    Tracked (s.cmd.targetM s.currentNodeIdx) lastPosM since

/-- How far the handler inside the monitor has got. -/
inductive Stage (s : AutonomousService F) (g : Sighting F) (o : Option (Code (World F) (Msg F))) :
    Prop
  | outside (ho : o = none ∨ o = some .done) (htrack : OnTrack s s.lastPosM g.since)
  | checking (kin : KinematicsPayload F) (ho : o = some (checkCode s.currentNodeIdx kin))
      (hactive : s.idle = false) (hsample : kin.positionM = g.sample)
      (htrack : OnTrack s s.lastPosM g.since)
  | remembering (kin : KinematicsPayload F) (ho : o = some (update (rememberStretch kin)))
      (hsample : kin.positionM = g.sample) (htrack : OnTrack s g.sample g.since)

/-! ## One step -/

section Step

variable {pf : Platform F} {c c' : AppConfig F} {a : Thread × Option (AppFrame F)} {g : Sighting F}

/-- The mission is the same, wherever the vehicle is. -/
theorem OnTrack.keep {s s' : AutonomousService F} {lastPosM : F} {since : List F}
    (h : OnTrack s lastPosM since) (hcmd : s'.cmd = s.cmd)
    (hidx : s'.currentNodeIdx = s.currentNodeIdx) (hactive : s'.routeActive = s.routeActive)
    (positionM : F) : OnTrack s' lastPosM (positionM :: since) := by
  intro hidle htarget
  have hidle' : s.idle = false := by
    rwa [AutonomousService.idle, hcmd, hidx, hactive] at hidle
  rw [hcmd, hidx] at htarget ⊢
  exact (h hidle' htarget).cons htarget positionM

omit [FloatOps F] [FloatLaws F] in
/-- No node is counted and no command accepted. -/
theorem watch_keep (ha : commanded a.2 = none)
    (hidx : c'.world.autonomous.currentNodeIdx = c.world.autonomous.currentNodeIdx) :
    (watch c a c' g).since = c'.world.kinematics.positionM :: g.since := by
  simp [watch, ha, hidx]

omit [FloatLaws F] in
/-- What counting a node leaves. -/
theorem checkNode_reached {s : AutonomousService F} {idx : Nat} {kin : KinematicsPayload F}
    (deref : EnvPtr → EnvironmentPayload F)
    (h : AutonomousService.reached (s.node idx).targetPos.x s.lastPosM kin.positionM = true) :
    (s.checkNode deref idx kin).1.cmd = s.cmd ∧
      (s.checkNode deref idx kin).1.currentNodeIdx = (s.currentNodeIdx + 1) % 2 ^ 8 ∧
      ((s.checkNode deref idx kin).1.idle = false →
        (s.currentNodeIdx + 1) % 2 ^ 8 < s.cmd.numNodes) := by
  obtain ⟨status, hrecord, -⟩ := s.recordStats_frame kin.positionM
  have hcheck : (s.checkNode deref idx kin).1 =
      ({ s with status := status }.advanceNode deref).1 := by
    rw [AutonomousService.checkNode_hit deref h, hrecord]
  rw [hcheck]
  unfold AutonomousService.advanceNode
  dsimp only
  split
  · exact ⟨rfl, rfl, fun hidle => by simp [AutonomousService.idle] at hidle⟩
  · next hmore => exact ⟨rfl, rfl, fun _ => not_le.1 hmore⟩

omit [FloatLaws F] in
/-- A sample that reaches the current node counts it. -/
theorem Reaches.counts (h : Reaches c a) (hstep : (machine pf).Step c a c') : Counts c a c' := by
  obtain ⟨kin, ⟨lock, ha⟩, hreached⟩ := h
  refine ⟨by rw [ha]; rfl, ?_⟩
  cases hstep with
  | start => exact nomatch ha
  | fire htop hfire =>
      obtain rfl := Option.some.inj ha
      obtain rfl := Option.some.inj hfire
      have hidx := (checkNode_reached c.world.environment.deref hreached).2.1
      show ((checkStretch _ kin c.world).1).autonomous.currentNodeIdx ≠ _
      rw [checkStretch, hidx]
      omega

omit [FloatLaws F] in
/-- A command is accepted. -/
theorem accept_onTrack {s : AutonomousService F} {cmd : AutoDriveCommandPayload F} {positionM : F}
    (hclear : 0 < cmd.numNodes → IsNumber (cmd.targetM 0) →
      Clear (cmd.targetM 0) s.lastPosM positionM) :
    OnTrack (s.acceptCommand cmd) s.lastPosM [positionM] := by
  intro hidle htarget
  obtain ⟨-, hnodes⟩ := AutonomousService.idle_eq_false.1 hidle
  exact (hclear hnodes htarget).tracked

/-- A sample is checked, and the node is counted or not. -/
theorem check_stage {kin : KinematicsPayload F} {lock : Option Mutex}
    (hsample : kin.positionM = g.sample)
    (htrack : OnTrack c.world.autonomous c.world.autonomous.lastPosM g.since)
    (hactive : c.world.autonomous.idle = false)
    (ha : a.2 = some (.resume (checkCode c.world.autonomous.currentNodeIdx kin) lock))
    (hunpassed : Unpassed (c, g) a)
    (hworld : c'.world = (checkStretch c.world.autonomous.currentNodeIdx kin c.world).1) :
    OnTrack c'.world.autonomous g.sample (watch c a c' g).since ∧
      (Counts c a c' → Visited (c, g)) := by
  have hcommanded : commanded a.2 = none := by rw [ha]; rfl
  have hposition : c'.world.kinematics.positionM = c.world.kinematics.positionM := by
    rw [hworld]
    rfl
  have hservice : c'.world.autonomous = (c.world.autonomous.checkNode c.world.environment.deref
      c.world.autonomous.currentNodeIdx kin).1 := by
    rw [hworld]
    rfl
  have hchecks : Checks c a kin := ⟨lock, ha⟩
  cases hreached : AutonomousService.reached
      (c.world.autonomous.node c.world.autonomous.currentNodeIdx).targetPos.x
      c.world.autonomous.lastPosM kin.positionM with
  | false =>
      rw [AutonomousService.checkNode_miss _ hreached] at hservice
      have hidx := congrArg AutonomousService.currentNodeIdx hservice
      -- The sample is on the side of the remembered position, and will be remembered next.
      have hbeyond := ((AutonomousService.not_reached_iff _ _ _).1 hreached).2
      refine ⟨?_, fun hcounts => absurd hidx hcounts.2⟩
      rw [watch_keep hcommanded hidx, hservice]
      refine OnTrack.keep (fun hidle htarget => ?_) rfl rfl rfl _
      have hdecisive := hunpassed.decisive kin hchecks htarget
      have hside := not_not.1 fun hnot => hbeyond (hdecisive.2 hnot)
      exact (htrack hidle htarget).remember (hsample ▸ hside)
  | true =>
      obtain ⟨hcmd, hidx, hmore⟩ := checkNode_reached c.world.environment.deref hreached
      rw [← hservice] at hcmd hidx hmore
      -- The node is counted, and the one after it becomes current.
      have hreaches : Reaches c a := ⟨kin, hchecks, hreached⟩
      have hmoved : c'.world.autonomous.currentNodeIdx ≠ c.world.autonomous.currentNodeIdx := by
        rw [hidx]
        omega
      refine ⟨fun hidle htarget => ?_, fun _ => ?_⟩
      · rw [hcmd, hidx] at htarget ⊢
        have hclear := (hunpassed.next hreaches (hmore hidle) htarget).tracked
        simpa [watch, hcommanded, hmoved, hposition] using hclear
      · rcases (AutonomousService.reached_iff _ _ _).1 hreached with hnear | hcross
        · left
          rw [← hsample]
          exact hnear
        · refine or_iff_not_imp_left.2 fun hfar => ?_
          have htarget := isNumber_of_crossing hcross
          have hcrossed := (hunpassed.decisive kin hchecks htarget).1 hcross
          rw [hsample] at hcrossed
          exact (htrack hactive htarget).visited (hunpassed.fresh hreaches hfar) hcrossed

/-- A handler of the mission is called. -/
theorem enter_stage {h : Service} {m : Msg F} {sec : World F → World F × List (Msg F)}
    {next : World F → Code (World F) (Msg F)} (ha : a.2 = some (.call h m))
    (henters : missionMonitor.Enters h m) (hcode : code pf h m = .step sec next)
    (hworld : c'.world = (sec c.world).1)
    (htrack : OnTrack c.world.autonomous c.world.autonomous.lastPosM g.since)
    (hunpassed : Unpassed (c, g) a) :
    Stage c'.world.autonomous (watch c a c' g) (some (next c.world)) ∧
      (Counts c a c' → Visited (c, g)) := by
  obtain ⟨rfl, ⟨cmd, rfl⟩ | ⟨kin, rfl⟩⟩ := enters_cases henters
  · -- A command replaces the mission, wherever the vehicle is.
    obtain ⟨rfl, rfl⟩ := Code.step.inj hcode
    have hcommanded : commanded a.2 = some cmd := by rw [ha]; rfl
    have hservice : c'.world.autonomous = c.world.autonomous.acceptCommand cmd := by
      rw [hworld]
      rfl
    have hposition : c'.world.kinematics.positionM = c.world.kinematics.positionM := by
      rw [hworld]
    have hsince' : (watch c a c' g).since = [c.world.kinematics.positionM] := by
      simp [watch, hcommanded, hposition]
    refine ⟨.outside (.inr rfl) ?_, fun hcounts => ?_⟩
    · rw [hsince', hservice]
      exact accept_onTrack (hunpassed.accepted cmd hcommanded)
    · exact absurd (hcommanded.symm.trans hcounts.1) (Option.some_ne_none cmd)
  · -- Without a route a sample is remembered at once, with one it is checked first.
    obtain ⟨rfl, rfl⟩ := Code.step.inj hcode
    have hcommanded : commanded a.2 = none := by rw [ha]; rfl
    have hsample : (watch c a c' g).sample = kin.positionM := by
      simp [watch, ha, sampled]
    cases hidle : c.world.autonomous.idle with
    | true =>
        have hservice : c'.world.autonomous = c.world.autonomous.rememberPosition kin := by
          rw [hworld, requestStretch, if_pos hidle]
        refine ⟨.outside (.inr ?_) fun hactive => ?_, fun hcounts => ?_⟩
        · simp [hidle]
        · rw [hservice] at hactive
          exact absurd (hactive.symm.trans hidle) Bool.false_ne_true
        · exact absurd (congrArg AutonomousService.currentNodeIdx hservice) hcounts.2
    | false =>
        have hservice : c'.world.autonomous = c.world.autonomous := by
          rw [hworld, requestStretch, if_neg (by simp [hidle])]
        have hidx := congrArg AutonomousService.currentNodeIdx hservice
        refine ⟨.checking kin ?_ ?_ hsample.symm ?_, fun hcounts => absurd hidx hcounts.2⟩
        · simp [hidle, hidx]
        · rw [hservice]
          exact hidle
        · rw [watch_keep hcommanded hidx, hservice]
          exact htrack.keep rfl rfl rfl _

/-- **Step lemma.** -/
theorem stage_step {o o' : Option (Code (World F) (Msg F))}
    (hchange : missionMonitor.Change (machine pf) c a c' o o')
    (hstage : Stage c.world.autonomous g o)
    (hunpassed : Unpassed (c, g) a) :
    Stage c'.world.autonomous (watch c a c' g) o' ∧ (Counts c a c' → Visited (c, g)) := by
  cases hchange with
  | keeps hview ha =>
      obtain ⟨hcmd, hidx, hactive, hlast⟩ : c'.world.autonomous.cmd = c.world.autonomous.cmd ∧
          c'.world.autonomous.currentNodeIdx = c.world.autonomous.currentNodeIdx ∧
          c'.world.autonomous.routeActive = c.world.autonomous.routeActive ∧
          c'.world.autonomous.lastPosM = c.world.autonomous.lastPosM := by
        simpa [missionMonitor] using hview
      have hcommanded : commanded a.2 = none := by
        unfold commanded
        split
        · next cmd heq => exact absurd ⟨rfl, .inl rfl⟩ (ha _ _ heq)
        · rfl
      have hsampled : sampled a.2 = none := by
        unfold sampled
        split
        · next kin heq => exact absurd ⟨rfl, .inr rfl⟩ (ha _ _ heq)
        · rfl
      have hsample : (watch c a c' g).sample = g.sample := by simp [watch, hsampled]
      refine ⟨?_, fun hcounts => absurd hidx hcounts.2⟩
      cases hstage with
      | outside ho htrack =>
          refine .outside ho ?_
          rw [watch_keep hcommanded hidx, hlast]
          exact htrack.keep hcmd hidx hactive _
      | checking kin ho hidle hkin htrack =>
          refine .checking kin (hidx ▸ ho) ?_ (hkin.trans hsample.symm) ?_
          · rw [AutonomousService.idle, hcmd, hidx, hactive]
            exact hidle
          · rw [watch_keep hcommanded hidx, hlast]
            exact htrack.keep hcmd hidx hactive _
      | remembering kin ho hkin htrack =>
          refine .remembering kin ho (hkin.trans hsample.symm) ?_
          rw [watch_keep hcommanded hidx, hsample]
          exact htrack.keep hcmd hidx hactive _
  | enters ha henters hcode hworld =>
      cases hstage with
      | outside _ htrack => exact enter_stage ha henters hcode hworld htrack hunpassed
      | checking kin ho | remembering kin ho => cases ho
  | @goesOn sec next ha hworld =>
      have hcommanded : commanded a.2 = none := by rw [ha]; rfl
      have hsample : (watch c a c' g).sample = g.sample := by simp [watch, ha, sampled]
      cases hstage with
      | outside ho _ => rcases ho with ho | ho <;> cases ho
      | checking kin ho hidle hkin htrack =>
          obtain ⟨rfl, rfl⟩ := Code.step.inj (Option.some.inj ho)
          obtain ⟨hnext, hvisited⟩ := check_stage hkin htrack hidle ha hunpassed hworld
          exact ⟨.remembering kin rfl (hkin.trans hsample.symm) (hsample ▸ hnext), hvisited⟩
      | remembering kin ho hkin htrack =>
          obtain ⟨rfl, rfl⟩ := Code.step.inj (Option.some.inj ho)
          have hservice : c'.world.autonomous = c.world.autonomous.rememberPosition kin := by
            rw [hworld]
            rfl
          have hidx := congrArg AutonomousService.currentNodeIdx hservice
          refine ⟨.outside (.inr rfl) ?_, fun hcounts => absurd hidx hcounts.2⟩
          rw [watch_keep hcommanded hidx, hservice]
          show OnTrack _ kin.positionM _
          rw [hkin]
          exact htrack.keep rfl rfl rfl _
  | leaves ha hworld =>
      have hcommanded : commanded a.2 = none := by rw [ha]; rfl
      have hidx : c'.world.autonomous.currentNodeIdx = c.world.autonomous.currentNodeIdx := by
        rw [hworld]
      refine ⟨?_, fun hcounts => absurd hidx hcounts.2⟩
      cases hstage with
      | outside _ htrack =>
          refine .outside (.inl rfl) ?_
          rw [watch_keep hcommanded hidx, hworld]
          exact htrack.keep rfl rfl rfl _
      | checking kin ho | remembering kin ho => cases ho

end Step

/-! ## Runs -/

/-- Nothing has been seen yet but the start. -/
def Sighting.init : Sighting F := ⟨[0], 0⟩

omit [FloatLaws F] in
/-- Looking on keeps no run from happening: every reachable configuration is reached with a
    sighting, and no others are. -/
theorem reachable_iff_watched (pf : Platform F) (c : AppConfig F) : Reachable pf c ↔
    ∃ g, (machine pf).Watched watch (fun _ _ => True) (start, .init) (c, g) :=
  ⟨fun hrun => hrun.watched Sighting.init, fun ⟨_, hrun⟩ => hrun.run⟩

/-- **Run lemma.** -/
theorem watched_stage (pf : Platform F) {x : AppConfig F × Sighting F}
    (hrun : (machine pf).Watched watch Unpassed (start, .init) x) :
    ∃ o, missionMonitor.At x.1 o ∧ Stage x.1.world.autonomous x.2 o := by
  refine hrun.invariant
    (I := fun x => ∃ o, missionMonitor.At x.1 o ∧ Stage x.1.world.autonomous x.2 o) ?_ ?_
  · refine ⟨none, .free fun _ _ hf => absurd hf List.not_mem_nil, .outside (.inl rfl) ?_⟩
    exact fun hidle => nomatch hidle
  · rintro c g a c' ⟨o, hat, hstage⟩ hunpassed hstep
    obtain ⟨o', hchange, hat'⟩ := (mission_guards pf).change hat hstep
    exact ⟨o', hat', (stage_step hchange hstage hunpassed).1⟩

/-- **Counted nodes are visited.** In every run of the threads in which no node becomes current that
    the vehicle has passed unseen, no node is crossed by a sample from before and no product of
    distances underflows, every node that is counted has been visited. -/
theorem counted_visited (pf : Platform F) {x : AppConfig F × Sighting F}
    (hrun : (machine pf).Watched watch Unpassed (start, .init) x)
    {a : Thread × Option (AppFrame F)} {c' : AppConfig F} (hunpassed : Unpassed x a)
    (hstep : (machine pf).Step x.1 a c') (hcounts : Counts x.1 a c') : Visited x := by
  obtain ⟨o, hat, hstage⟩ := watched_stage pf hrun
  obtain ⟨o', hchange, -⟩ := (mission_guards pf).change hat hstep
  exact (stage_step hchange hstage hunpassed).2 hcounts

end

/-! ## Schedules -/

instance (c : AppConfig ℚ) (a : Thread × Option (AppFrame ℚ)) (c' : AppConfig ℚ) :
    Decidable (Counts c a c') :=
  decidable_of_iff ((commanded a.2).isNone = true ∧
    c'.world.autonomous.currentNodeIdx ≠ c.world.autonomous.currentNodeIdx) (by simp [Counts])

instance (x : AppConfig ℚ × Sighting ℚ) : Decidable (Visited x) :=
  inferInstanceAs (Decidable (_ ∨ _))

/-- `Unpassed` for a step, by what the step counts. -/
def Passes (x : AppConfig ℚ × Sighting ℚ) (a : Thread × Option (AppFrame ℚ)) (c' : AppConfig ℚ) :
    Prop :=
  (∀ cmd ∈ (commanded a.2).toList, 0 < cmd.numNodes →
    Clear (cmd.targetM 0) x.1.world.autonomous.lastPosM x.1.world.kinematics.positionM) ∧
  (Counts x.1 a c' →
    ((x.1.world.autonomous.currentNodeIdx + 1) % 2 ^ 8 < x.1.world.autonomous.cmd.numNodes →
      Clear (x.1.world.autonomous.cmd.targetM ((x.1.world.autonomous.currentNodeIdx + 1) % 2 ^ 8))
        x.2.sample x.1.world.kinematics.positionM) ∧
    (¬ lt (FloatOps.abs (target x.1 - x.2.sample)) (lit (1 / 10)) = true →
      InRange x.2.since x.2.sample))

instance (x : AppConfig ℚ × Sighting ℚ) (a : Thread × Option (AppFrame ℚ)) (c' : AppConfig ℚ) :
    Decidable (Passes x a c') :=
  inferInstanceAs (Decidable (_ ∧ _))

section Observe

variable (pf : Platform ℚ)
  (P : AppConfig ℚ × Sighting ℚ → Thread × Option (AppFrame ℚ) → AppConfig ℚ → Prop)
  [∀ x a c', Decidable (P x a c')]

/-- Carry out a decision and watch. -/
def observe (x : AppConfig ℚ × Sighting ℚ) (mv : Move ℚ) : Option (AppConfig ℚ × Sighting ℚ) :=
  match mv with
  | .advance t =>
      match x.1.stack t with
      | [] => some x
      | f :: rest =>
          ((machine pf).fire t f rest x.1).bind fun c' =>
            if P x (t, some f) c' then some (c', watch x.1 (t, some f) c' x.2) else none
  | mv => (move pf (fun _ _ => True) x.1 mv).map fun c' => (c', watch x.1 (.time, none) c' x.2)

/-- Carry out a schedule. -/
def observes (x : AppConfig ℚ × Sighting ℚ) : List (Move ℚ) → Option (AppConfig ℚ × Sighting ℚ)
  | [] => some x
  | mv :: rest => (observe pf P x mv).bind fun y => observes y rest

variable {pf P}

/-- What a schedule shows belongs to a run. -/
theorem observes_watched {Q : AppConfig ℚ × Sighting ℚ → Thread × Option (AppFrame ℚ) → Prop}
    (hfire : ∀ {x t f rest c'}, x.1.stack t = f :: rest → (machine pf).fire t f rest x.1 = some c' →
      P x (t, some f) c' → Q x (t, some f))
    (hstart : ∀ x t, Q x (t, none)) {x y : AppConfig ℚ × Sighting ℚ} {mvs : List (Move ℚ)}
    (h : observes pf P x mvs = some y) : (machine pf).Watched watch Q x y := by
  induction mvs generalizing x with
  | nil =>
      obtain rfl := Option.some.inj h
      exact Relation.ReflTransGen.refl
  | cons mv rest ih =>
      obtain ⟨x₁, hfirst, hrest⟩ := Option.bind_eq_some_iff.1 h
      refine Relation.ReflTransGen.trans ?_ (ih hrest)
      unfold observe at hfirst
      split at hfirst
      · next t =>
          split at hfirst
          · obtain rfl := Option.some.inj hfirst
            exact Relation.ReflTransGen.refl
          · next f fs hstack =>
              obtain ⟨c', hf, hif⟩ := Option.bind_eq_some_iff.1 hfirst
              obtain ⟨hP, heq⟩ := Option.ite_none_right_eq_some.1 hif
              obtain rfl := Option.some.inj heq
              exact .single ⟨_, hfire hstack hf hP, .fire hstack hf, rfl⟩
      · next hmv =>
          obtain ⟨c', hmove, rfl⟩ := Option.map_eq_some_iff.1 hfirst
          obtain ⟨t, -, hstep⟩ := move_start (fun t ht => hmv t ht) hmove
          exact .single ⟨_, hstart x t, hstep, rfl⟩

/-- A thread that is let go on counts a node. -/
theorem counts_of_observe {x y : AppConfig ℚ × Sighting ℚ} {t : Thread}
    (h : observe pf P x (.advance t) = some y)
    (hidx : y.1.world.autonomous.currentNodeIdx ≠ x.1.world.autonomous.currentNodeIdx)
    (hnone : commanded (x.1.stack t).head? = none) :
    ∃ f rest, x.1.stack t = f :: rest ∧ (machine pf).fire t f rest x.1 = some y.1 ∧
      P x (t, some f) y.1 ∧ Counts x.1 (t, some f) y.1 := by
  simp only [observe] at h
  split at h
  · obtain rfl := Option.some.inj h
    exact absurd rfl hidx
  · next f rest hstack =>
      obtain ⟨c', hf, hif⟩ := Option.bind_eq_some_iff.1 h
      obtain ⟨hP, heq⟩ := Option.ite_none_right_eq_some.1 hif
      obtain rfl := Option.some.inj heq
      rw [hstack] at hnone
      exact ⟨f, rest, hstack, hf, hP, hnone, hidx⟩

end Observe

/-- Exact products do not underflow. -/
theorem decisive_rat (target lastPosM positionM : ℚ) : Decisive target lastPosM positionM := by
  rw [Decisive, ← mul_nonpos_iff_not_sameSide]
  exact decide_eq_true_iff

theorem unpassed_start (x : AppConfig ℚ × Sighting ℚ) (t : Thread) : Unpassed x (t, none) where
  accepted _ hcmd := nomatch hcmd
  decisive _ _ _ := decisive_rat _ _ _
  next := by
    rintro ⟨_, ⟨_, hframe⟩, -⟩
    exact nomatch hframe
  fresh := by
    rintro ⟨_, ⟨_, hframe⟩, -⟩
    exact nomatch hframe

theorem Passes.unpassed {pf : Platform ℚ} {x : AppConfig ℚ × Sighting ℚ} {t : Thread}
    {f : AppFrame ℚ} {rest : List (AppFrame ℚ)} {c' : AppConfig ℚ}
    (hstack : x.1.stack t = f :: rest) (hfire : (machine pf).fire t f rest x.1 = some c')
    (h : Passes x (t, some f) c') : Unpassed x (t, some f) where
  accepted cmd hcmd hnodes _ := h.1 cmd (Option.mem_toList.2 hcmd) hnodes
  decisive _ _ _ := decisive_rat _ _ _
  next hreaches hmore _ := (h.2 (hreaches.counts (.fire hstack hfire))).1 hmore
  fresh hreaches := (h.2 (hreaches.counts (.fire hstack hfire))).2

/-! ## A route behind the remembered position -/

/-- 6000 rpm for 10 ms. -/
def fastDrive : MotorSequencePayload :=
  { cmdId := 1, numSteps := 1, steps := StdArray.set (fun _ => default) 0 ⟨6000, 10000⟩ }

/-- A route to 0.25 m. -/
def nearRoute : AutoDriveCommandPayload ℚ :=
  { (default : AutoDriveCommandPayload ℚ) with numNodes := 1, route := fun _ => ⟨⟨1 / 4, 0⟩, 5000⟩ }

/-- The bridge handles the drive, and a tick moves the vehicle to 0.6 m. -/
def driveAhead : List (Move ℚ) :=
  .datagram (.motorSequence fastDrive) :: List.replicate 14 (.advance .bridge) ++
    [.snapshot, .tick] ++ List.replicate 40 (.advance .clock)

/-- The bridge handles the route. -/
def acceptRoute : List (Move ℚ) :=
  .datagram (.autoDriveCommand nearRoute) :: List.replicate 14 (.advance .bridge)

/-- A position is asked for, and `AutonomousService` is about to check the sample. -/
def askPosition : List (Move ℚ) :=
  .datagram .kinematicsRequest :: List.replicate 5 (.advance .bridge)

/-- What is seen when the bridge is let go on after a schedule: whether the current node has been
    visited, its index before and after, and that no command is accepted. -/
def seen (pf : Platform ℚ)
    (P : AppConfig ℚ × Sighting ℚ → Thread × Option (AppFrame ℚ) → AppConfig ℚ → Prop)
    [∀ x a c', Decidable (P x a c')] (mvs : List (Move ℚ)) : Option (Bool × Nat × Nat × Bool) :=
  (observes pf P (start, .init) mvs).bind fun x =>
    (observe pf P x (.advance .bridge)).map fun y =>
      (decide (Visited x), x.1.world.autonomous.currentNodeIdx,
        y.1.world.autonomous.currentNodeIdx, (commanded (x.1.stack .bridge).head?).isNone)

/-- The vehicle has been past 0.25 m before the route, and the node is counted 0.35 m away from
    it. -/
theorem routeBehind_counted :
    ¬ ∀ (pf : Platform ℚ) (x : AppConfig ℚ × Sighting ℚ) (a : Thread × Option (AppFrame ℚ))
      (c' : AppConfig ℚ), (machine pf).Watched watch (fun _ _ => True) (start, .init) x →
        (machine pf).Step x.1 a c' → Counts x.1 a c' → Visited x := by
  intro hall
  have hseen : seen (.libstdcxx fun _ _ => 0) (fun _ _ _ => True)
      (driveAhead ++ acceptRoute ++ askPosition) = some (false, 0, 1, true) := by
    decide +kernel
  obtain ⟨x, hx, hnext⟩ := Option.bind_eq_some_iff.1 hseen
  obtain ⟨y, hy, hfacts⟩ := Option.map_eq_some_iff.1 hnext
  obtain ⟨hnot, hbefore, hafter, hnone⟩ : _ ∧ _ ∧ _ ∧ _ := by simpa using hfacts
  obtain ⟨f, rest, hstack, hfire, -, hcounts⟩ :=
    counts_of_observe hy (by rw [hbefore, hafter]; exact one_ne_zero) (by simpa using hnone)
  refine hnot (hall _ x _ y.1 ?_ (.fire hstack hfire) hcounts)
  exact observes_watched (fun _ _ _ => trivial) (fun _ _ => trivial) hx

/-- The route first, then the drive: the node is passed on the way and counted. -/
theorem routeAhead_visited : ∃ (x : AppConfig ℚ × Sighting ℚ) (a : Thread × Option (AppFrame ℚ))
    (c' : AppConfig ℚ),
      (machine (.libstdcxx fun _ _ => 0)).Watched watch Unpassed (start, .init) x ∧
      Counts x.1 a c' ∧ Visited x := by
  have hseen : seen (.libstdcxx fun _ _ => 0) Passes
      (acceptRoute ++ driveAhead ++ askPosition) = some (true, 0, 1, true) := by
    decide +kernel
  obtain ⟨x, hx, hnext⟩ := Option.bind_eq_some_iff.1 hseen
  obtain ⟨y, hy, hfacts⟩ := Option.map_eq_some_iff.1 hnext
  obtain ⟨-, hbefore, hafter, hnone⟩ : _ ∧ _ ∧ _ ∧ _ := by simpa using hfacts
  obtain ⟨f, rest, hstack, hfire, hpasses, hcounts⟩ :=
    counts_of_observe hy (by rw [hbefore, hafter]; exact one_ne_zero) (by simpa using hnone)
  have hrun := observes_watched Passes.unpassed unpassed_start hx
  exact ⟨x, _, y.1, hrun, hcounts, counted_visited _ hrun (hpasses.unpassed hstack hfire)
    (.fire hstack hfire) hcounts⟩

end App

end ReflectPytest
