import ReflectPytest.Autonomous.ArrayAccess
import ReflectPytest.Autonomous.Energy
import ReflectPytest.FloatLaws

set_option autoImplicit false

/-! # Which waypoints are counted

A node is reached by a sample within 0.1 m of it, or on the other side of it than the sample before.
Only the current node is checked, once per sample, so a sample that passes two targets counts the
first and leaves the second behind: from then on both the remembered and the new position lie beyond
it, and no crossing is seen any more. `route_finished_iff` says that a drive that only goes forward
completes its route if and only if no sample overshoots in this way. -/

namespace ReflectPytest

open FloatOps

section

variable {F : Type} [FloatOps F]

/-- The target of node `k`. -/
def AutoDriveCommandPayload.targetM (cmd : AutoDriveCommandPayload F) (k : Nat) : F :=
  ((cmd.route.get? k).getD default).targetPos.x

namespace AutonomousService

/-- The positions among the delivered messages. -/
def positions (inputs : List ((EnvPtr → EnvironmentPayload F) × Input F)) : List F :=
  inputs.filterMap fun
    | (_, .kinematicsData kin _) => some kin.positionM
    | _ => none

/-- The service is on its way to node `k` of the route. -/
structure Driving (cmd : AutoDriveCommandPayload F) (s : AutonomousService F) (k : Nat) : Prop where
  command : s.cmd = cmd
  active : s.routeActive = true
  node : s.currentNodeIdx = k
  ahead : k < cmd.numNodes

/-- Every node of the route has been counted. -/
structure Finished (cmd : AutoDriveCommandPayload F) (s : AutonomousService F) : Prop where
  active : s.routeActive = false
  complete : s.status.routeComplete = true
  node : s.currentNodeIdx = cmd.numNodes

/-- The sample is at the target or past it. -/
def Past (target positionM : F) : Prop := le target positionM = true

instance (target positionM : F) : Decidable (Past target positionM) :=
  inferInstanceAs (Decidable (_ = true))

/-- The sample is not within 0.1 m of the target. -/
def Far (target positionM : F) : Prop :=
  ¬ lt (FloatOps.abs (target - positionM)) (lit (1 / 10)) = true

/-- The signs of the distances to the remembered position and to the sample show no crossing. -/
def Beyond (target lastPosM positionM : F) : Prop :=
  ¬ le ((target - lastPosM) * (target - positionM)) 0 = true

/-- The sample is past the current target, not near it, and seems to have been past it before. -/
def Overshoots (s : AutonomousService F) : Input F → Prop
  | .kinematicsData kin _ =>
      s.routeActive = true ∧ Past (s.cmd.targetM s.currentNodeIdx) kin.positionM ∧
        Far (s.cmd.targetM s.currentNodeIdx) kin.positionM ∧
        Beyond (s.cmd.targetM s.currentNodeIdx) s.lastPosM kin.positionM
  | _ => False

/-! ## Reaching a target -/

theorem reached_iff (target lastPosM positionM : F) :
    reached target lastPosM positionM = true ↔
      lt (FloatOps.abs (target - positionM)) (lit (1 / 10)) = true ∨
        le ((target - lastPosM) * (target - positionM)) 0 = true := by
  simp [reached]

theorem not_reached_iff (target lastPosM positionM : F) :
    reached target lastPosM positionM = false ↔
      Far target positionM ∧ Beyond target lastPosM positionM := by
  rw [← Bool.not_eq_true, reached_iff, not_or]
  rfl

section Past

variable [FloatLaws F] {target lastPosM positionM : F}

theorem Past.trans (h : Past target lastPosM) (hle : le lastPosM positionM = true) :
    Past target positionM := FloatLaws.le_trans h hle

/-- A position that is past the target moves away from it. -/
theorem Far.trans (h : Far target lastPosM) (hpast : Past target lastPosM)
    (hle : le lastPosM positionM = true) : Far target positionM :=
  fun hnear => h (FloatLaws.abs_sub_mono hpast hle hnear)

/-- Between two positions that are past the target and not near it, it is not reached. -/
theorem not_reached_of_far (hpast : Past target lastPosM) (hfar : Far target lastPosM)
    (hpast' : Past target positionM) (hfar' : Far target positionM) :
    reached target lastPosM positionM = false :=
  (not_reached_iff _ _ _).2 ⟨hfar', FloatLaws.mul_sub_pos hpast hpast' hfar hfar'⟩

end Past

/-! ## Steps of a drive -/

section Steps

variable {cmd : AutoDriveCommandPayload F} {s : AutonomousService F} {k : Nat}

theorem Driving.targetM (h : Driving cmd s k) :
    (s.node s.currentNodeIdx).targetPos.x = cmd.targetM k := by
  rw [AutonomousService.node, h.command, h.node]
  rfl

/-- Messages other than samples and commands leave the drive and the remembered position alone. -/
theorem Driving.other (h : Driving cmd s k) (deref : EnvPtr → EnvironmentPayload F) {i : Input F}
    (hcmd : ∀ cmd, i ≠ .autoDriveCommand cmd)
    (hkin : ∀ kin replies, i ≠ .kinematicsData kin replies) :
    Driving cmd (s.step deref i).1 k ∧ (s.step deref i).1.lastPosM = s.lastPosM := by
  cases i with
  | autoDriveCommand c => exact absurd rfl (hcmd c)
  | kinematicsData kin replies => exact absurd rfl (hkin kin replies)
  | powerData power => exact ⟨⟨h.command, h.active, h.node, h.ahead⟩, rfl⟩
  | physicsTick => exact ⟨h, rfl⟩
  | internalEnvData env =>
      have hm := onInternalEnvData_mission deref s env
      exact ⟨⟨hm.cmd.trans h.command, hm.active.trans h.active, hm.node.trans h.node, h.ahead⟩,
        hm.lastPos⟩

/-- Checking a sample moves the drive to the next node, or ends it, exactly if the current node is
    reached. -/
theorem Driving.check (h : Driving cmd s k) (hn : cmd.numNodes ≤ 8)
    (deref : EnvPtr → EnvironmentPayload F) (kin : KinematicsPayload F) :
    let r := (s.checkNode deref s.currentNodeIdx kin).1
    if reached (cmd.targetM k) s.lastPosM kin.positionM then
      (k + 1 < cmd.numNodes ∧ Driving cmd r (k + 1)) ∨ Finished cmd r
    else Driving cmd r k := by
  intro r
  have hahead := h.ahead
  obtain ⟨status, hrecord, -⟩ := s.recordStats_frame kin.positionM
  cases hreached : reached (cmd.targetM k) s.lastPosM kin.positionM with
  | false =>
      have hr : r = s := congrArg Prod.fst (checkNode_miss deref (h.targetM ▸ hreached))
      rw [hr]
      exact h
  | true =>
      have hr : r = ({ s with status := status }.advanceNode deref).1 := by
        simp only [r, checkNode_hit deref (h.targetM ▸ hreached), hrecord]
      have hidx : (s.currentNodeIdx + 1) % 2 ^ 8 = k + 1 := by
        rw [h.node]
        omega
      simp only [if_true, hr, advanceNode, hidx, h.command]
      by_cases hlast : cmd.numNodes ≤ k + 1
      · simp only [hlast, if_true]
        exact Or.inr ⟨rfl, rfl, by dsimp only; omega⟩
      · simp only [hlast, if_false]
        exact Or.inl ⟨not_le.1 hlast, rfl, h.active, rfl, not_le.1 hlast⟩

/-- **A sample of a drive** is remembered, and counts the current node exactly if it reaches it. -/
theorem Driving.sample (h : Driving cmd s k) (hn : cmd.numNodes ≤ 8)
    (deref : EnvPtr → EnvironmentPayload F) (kin : KinematicsPayload F)
    (replies : List InternalEnvDataPayload) :
    let s' := (s.step deref (.kinematicsData kin replies)).1
    s'.lastPosM = kin.positionM ∧
      if reached (cmd.targetM k) s.lastPosM kin.positionM then
        (k + 1 < cmd.numNodes ∧ Driving cmd s' (k + 1)) ∨ Finished cmd s'
      else Driving cmd s' k := by
  have hidle : s.idle = false :=
    idle_eq_false.2 ⟨h.active, by rw [h.node, h.command]; exact h.ahead⟩
  have hm := answered_mission deref s kin replies
  have hanswered : Driving cmd (s.answered deref kin replies).1 k :=
    ⟨hm.cmd.trans h.command, hm.active.trans h.active, hm.node.trans h.node, h.ahead⟩
  have hcheck := hanswered.check hn deref kin
  rw [hm.lastPos, hm.node] at hcheck
  simp only [step, onKinematicsData_eq deref s kin replies hidle]
  refine ⟨rfl, ?_⟩
  cases hreached : reached (cmd.targetM k) s.lastPosM kin.positionM with
  | false =>
      simp only [hreached, Bool.false_eq_true, if_false] at hcheck ⊢
      exact ⟨hcheck.command, hcheck.active, hcheck.node, hcheck.ahead⟩
  | true =>
      simp only [hreached, if_true] at hcheck ⊢
      rcases hcheck with ⟨hnext, hd⟩ | hf
      · exact Or.inl ⟨hnext, hd.command, hd.active, hd.node, hd.ahead⟩
      · exact Or.inr ⟨hf.active, hf.complete, hf.node⟩

/-- A route stays finished until the next command. -/
theorem Finished.step (h : Finished cmd s) (deref : EnvPtr → EnvironmentPayload F) {i : Input F}
    (hcmd : ∀ cmd, i ≠ .autoDriveCommand cmd) : Finished cmd (s.step deref i).1 := by
  cases i with
  | autoDriveCommand c => exact absurd rfl (hcmd c)
  | powerData power => exact ⟨h.active, h.complete, h.node⟩
  | physicsTick => exact h
  | kinematicsData kin replies =>
      have hidle : s.idle = true := by simp [idle, h.active]
      simp only [AutonomousService.step, onKinematicsData, hidle, if_true]
      exact ⟨h.active, h.complete, h.node⟩
  | internalEnvData env =>
      have hm := onInternalEnvData_mission deref s env
      refine ⟨hm.active.trans h.active, ?_, hm.node.trans h.node⟩
      simp only [AutonomousService.step, onInternalEnvData, trackEnvironment]
      split_ifs <;> exact h.complete

end Steps

/-! ## Runs of a drive -/

section Runs

variable {cmd : AutoDriveCommandPayload F} {s : AutonomousService F} {k : Nat}

omit [FloatOps F] in
theorem positions_cons_sample (deref : EnvPtr → EnvironmentPayload F) (kin : KinematicsPayload F)
    (replies : List InternalEnvDataPayload)
    (rest : List ((EnvPtr → EnvironmentPayload F) × Input F)) :
    positions ((deref, .kinematicsData kin replies) :: rest) =
      kin.positionM :: positions rest := rfl

omit [FloatOps F] in
theorem positions_cons_other (deref : EnvPtr → EnvironmentPayload F) {i : Input F}
    (hkin : ∀ kin replies, i ≠ .kinematicsData kin replies)
    (rest : List ((EnvPtr → EnvironmentPayload F) × Input F)) :
    positions ((deref, i) :: rest) = positions rest := by
  cases i with
  | kinematicsData kin replies => exact absurd rfl (hkin kin replies)
  | _ => rfl

theorem Finished.run (h : Finished cmd s)
    (inputs : List ((EnvPtr → EnvironmentPayload F) × Input F)) (hin : Undisturbed inputs) :
    Finished cmd (s.run inputs).1 := by
  induction inputs generalizing s with
  | nil => exact h
  | cons input rest ih =>
      obtain ⟨deref, i⟩ := input
      exact ih (h.step deref (hin _ List.mem_cons_self)) fun i hi =>
        hin i (List.mem_cons_of_mem _ hi)

theorem Finished.along (h : Finished cmd s)
    (inputs : List ((EnvPtr → EnvironmentPayload F) × Input F)) (hin : Undisturbed inputs) :
    s.Along (fun s i => ¬ s.Overshoots i) inputs := by
  induction inputs generalizing s with
  | nil => trivial
  | cons input rest ih =>
      obtain ⟨deref, i⟩ := input
      refine ⟨fun hover => ?_, ih (h.step deref (hin _ List.mem_cons_self)) fun i hi =>
        hin i (List.mem_cons_of_mem _ hi)⟩
      cases i with
      | kinematicsData kin replies => exact absurd (h.active.symm.trans hover.1) (by simp)
      | _ => exact hover

/-- **A node left behind is never counted**: once the remembered position and all positions to come
    are past the target and not near it, the drive stays at its node. -/
theorem Driving.stuck [FloatLaws F] (h : Driving cmd s k) (hn : cmd.numNodes ≤ 8)
    (hpast : Past (cmd.targetM k) s.lastPosM) (hfar : Far (cmd.targetM k) s.lastPosM)
    (inputs : List ((EnvPtr → EnvironmentPayload F) × Input F)) (hin : Undisturbed inputs)
    (hall : ∀ x ∈ positions inputs, Past (cmd.targetM k) x ∧ Far (cmd.targetM k) x) :
    Driving cmd (s.run inputs).1 k := by
  induction inputs generalizing s with
  | nil => exact h
  | cons input rest ih =>
      obtain ⟨deref, i⟩ := input
      have hrest : Undisturbed rest := fun i hi => hin i (List.mem_cons_of_mem _ hi)
      by_cases hkin : ∃ kin replies, i = .kinematicsData kin replies
      · obtain ⟨kin, replies, rfl⟩ := hkin
        rw [positions_cons_sample] at hall
        obtain ⟨hpast', hfar'⟩ := hall _ List.mem_cons_self
        obtain ⟨hlast, hnext⟩ := h.sample hn deref kin replies
        simp only [not_reached_of_far hpast hfar hpast' hfar', Bool.false_eq_true, if_false]
          at hnext
        exact ih hnext (hlast ▸ hpast') (hlast ▸ hfar') hrest
          fun x hmem => hall x (List.mem_cons_of_mem _ hmem)
      · have hother : ∀ kin replies, i ≠ .kinematicsData kin replies :=
          fun kin replies heq => hkin ⟨kin, replies, heq⟩
        obtain ⟨hd, hlast⟩ := h.other deref (hin _ List.mem_cons_self) hother
        rw [positions_cons_other deref hother] at hall
        exact ih hd (hlast ▸ hpast) (hlast ▸ hfar) hrest hall

/-- A drive forward that gets to the end of its route has not overshot. -/
theorem Driving.along_of_finished [FloatLaws F] (h : Driving cmd s k) (hn : cmd.numNodes ≤ 8)
    (inputs : List ((EnvPtr → EnvironmentPayload F) × Input F)) (hin : Undisturbed inputs)
    (hsorted : (positions inputs).Pairwise fun x y => le x y = true)
    (hdone : Finished cmd (s.run inputs).1) :
    s.Along (fun s i => ¬ s.Overshoots i) inputs := by
  induction inputs generalizing s k with
  | nil => trivial
  | cons input rest ih =>
      obtain ⟨deref, i⟩ := input
      have hrest : Undisturbed rest := fun i hi => hin i (List.mem_cons_of_mem _ hi)
      by_cases hkin : ∃ kin replies, i = .kinematicsData kin replies
      · obtain ⟨kin, replies, rfl⟩ := hkin
        rw [positions_cons_sample, List.pairwise_cons] at hsorted
        obtain ⟨hlast, hnext⟩ := h.sample hn deref kin replies
        refine ⟨fun hover => ?_, ?_⟩
        · -- All samples from here on are as far past the target.
          obtain ⟨-, hpast, hfar, hbeyond⟩ := hover
          rw [h.command, h.node] at hpast hfar hbeyond
          simp only [(not_reached_iff _ _ _).2 ⟨hfar, hbeyond⟩, Bool.false_eq_true, if_false]
            at hnext
          have hstuck := hnext.stuck hn (hlast ▸ hpast) (hlast ▸ hfar) rest hrest fun x hx =>
            ⟨hpast.trans (hsorted.1 x hx), hfar.trans hpast (hsorted.1 x hx)⟩
          exact absurd (hdone.active.symm.trans hstuck.active) (by simp)
        · split at hnext
          · rcases hnext with ⟨-, hd⟩ | hf
            · exact ih hd hrest hsorted.2 hdone
            · exact hf.along rest hrest
          · exact ih hnext hrest hsorted.2 hdone
      · have hother : ∀ kin replies, i ≠ .kinematicsData kin replies :=
          fun kin replies heq => hkin ⟨kin, replies, heq⟩
        obtain ⟨hd, -⟩ := h.other deref (hin _ List.mem_cons_self) hother
        rw [positions_cons_other deref hother] at hsorted
        refine ⟨fun hover => ?_, ih hd hrest hsorted hdone⟩
        cases i with
        | kinematicsData kin replies => exact hother kin replies rfl
        | _ => exact hover

/-- **A drive that does not overshoot counts a node with every sample beyond the last target**, so
    enough of them finish the route. -/
theorem Driving.finished_of_along (h : Driving cmd s k) (hn : cmd.numNodes ≤ 8)
    (hlastTarget : ∀ j, j < cmd.numNodes → ∀ x, Past (cmd.targetM (cmd.numNodes - 1)) x →
      Past (cmd.targetM j) x)
    (inputs : List ((EnvPtr → EnvironmentPayload F) × Input F)) (hin : Undisturbed inputs)
    (henough : cmd.numNodes - k ≤
      (positions inputs).countP fun x => le (cmd.targetM (cmd.numNodes - 1)) x)
    (halong : s.Along (fun s i => ¬ s.Overshoots i) inputs) : Finished cmd (s.run inputs).1 := by
  induction inputs generalizing s k with
  | nil =>
      have hahead := h.ahead
      simp only [positions, List.filterMap_nil, List.countP_nil] at henough
      omega
  | cons input rest ih =>
      obtain ⟨deref, i⟩ := input
      obtain ⟨hkept, halong⟩ := halong
      have hrest : Undisturbed rest := fun i hi => hin i (List.mem_cons_of_mem _ hi)
      by_cases hkin : ∃ kin replies, i = .kinematicsData kin replies
      · obtain ⟨kin, replies, rfl⟩ := hkin
        rw [positions_cons_sample, List.countP_cons] at henough
        obtain ⟨-, hnext⟩ := h.sample hn deref kin replies
        cases hreached : reached (cmd.targetM k) s.lastPosM kin.positionM with
        | true =>
            simp only [hreached, if_true] at hnext
            rcases hnext with ⟨-, hd⟩ | hf
            · refine ih hd hrest ?_ halong
              split at henough <;> omega
            · exact hf.run rest hrest
        | false =>
            simp only [hreached, Bool.false_eq_true, if_false] at hnext
            have hbefore : le (cmd.targetM (cmd.numNodes - 1)) kin.positionM = false := by
              refine Bool.eq_false_iff.2 fun hpast => hkept ⟨h.active, ?_⟩
              rw [h.command, h.node]
              exact ⟨hlastTarget k h.ahead _ hpast, (not_reached_iff _ _ _).1 hreached⟩
            refine ih hnext hrest ?_ halong
            simpa [hbefore] using henough
      · have hother : ∀ kin replies, i ≠ .kinematicsData kin replies :=
          fun kin replies heq => hkin ⟨kin, replies, heq⟩
        obtain ⟨hd, -⟩ := h.other deref (hin _ List.mem_cons_self) hother
        rw [positions_cons_other deref hother] at henough
        exact ih hd hrest henough halong

theorem acceptCommand_driving (s : AutonomousService F) (hn : 1 ≤ cmd.numNodes) :
    Driving cmd (s.acceptCommand cmd) 0 :=
  ⟨rfl, decide_eq_true hn, rfl, hn⟩

/-- **Waypoints of a drive forward**: a route of one to eight nodes with increasing targets, driven
    with positions that never decrease, get past the last target and go on for as many samples as
    there are nodes, is finished at the end if and only if no sample overshoots. -/
theorem route_finished_iff [FloatLaws F] (s : AutonomousService F) (cmd : AutoDriveCommandPayload F)
    (hn : 1 ≤ cmd.numNodes) (hn8 : cmd.numNodes ≤ 8)
    (htargets : ∀ i j, i < j → j < cmd.numNodes → lt (cmd.targetM i) (cmd.targetM j) = true)
    (deref : EnvPtr → EnvironmentPayload F)
    (inputs : List ((EnvPtr → EnvironmentPayload F) × Input F)) (hin : Undisturbed inputs)
    (hsorted : (positions inputs).Pairwise fun x y => le x y = true)
    (hpast : ∃ before x after, positions inputs = before ++ x :: after ∧
      Past (cmd.targetM (cmd.numNodes - 1)) x ∧ cmd.numNodes ≤ after.length) :
    Finished cmd (s.run ((deref, .autoDriveCommand cmd) :: inputs)).1 ↔
      (s.acceptCommand cmd).Along (fun s i => ¬ s.Overshoots i) inputs := by
  have hstart := s.acceptCommand_driving hn
  obtain ⟨before, x, after, hpositions, hx, hlong⟩ := hpast
  have hlastTarget : ∀ j, j < cmd.numNodes → ∀ x, Past (cmd.targetM (cmd.numNodes - 1)) x →
      Past (cmd.targetM j) x := by
    intro j hj x hx
    rcases Nat.lt_or_ge j (cmd.numNodes - 1) with hlt | hge
    · exact Past.trans (FloatLaws.le_of_lt (htargets j _ hlt (by omega))) hx
    · rwa [show j = cmd.numNodes - 1 by omega]
  have henough : cmd.numNodes - 0 ≤
      (positions inputs).countP fun x => le (cmd.targetM (cmd.numNodes - 1)) x := by
    have hafter : after.countP (fun x => le (cmd.targetM (cmd.numNodes - 1)) x) =
        after.length := by
      refine List.countP_eq_length.2 fun y hy => Past.trans hx ?_
      rw [hpositions] at hsorted
      exact (List.pairwise_cons.1 (List.pairwise_append.1 hsorted).2.1).1 y hy
    have hx : le (cmd.targetM (cmd.numNodes - 1)) x = true := hx
    rw [hpositions, List.countP_append, List.countP_cons, hafter, if_pos hx]
    omega
  constructor
  · exact hstart.along_of_finished hn8 inputs hin hsorted
  · exact hstart.finished_of_along hn8 hlastTarget inputs hin henough

end Runs

end AutonomousService

end

namespace AutonomousService

/-- In exact arithmetic: the sample is at least 0.1 m past the current target, and the position
    before was past it too. -/
theorem overshoots_iff {s : AutonomousService ℚ} {kin : KinematicsPayload ℚ}
    {replies : List InternalEnvDataPayload} :
    s.Overshoots (.kinematicsData kin replies) ↔ s.routeActive = true ∧
      s.cmd.targetM s.currentNodeIdx < s.lastPosM ∧
      s.cmd.targetM s.currentNodeIdx + 1 / 10 ≤ kin.positionM := by
  unfold Overshoots Past Far Beyond
  simp only [le_rat, lt_rat, abs_rat, lit_rat, decide_eq_true_eq, not_lt, not_le]
  refine and_congr_right fun _ => ⟨?_, ?_⟩
  · rintro ⟨hpast, hfar, hbeyond⟩
    rw [abs_sub_of_le hpast] at hfar
    exact ⟨by nlinarith, by linarith⟩
  · rintro ⟨hbehind, hfar⟩
    have hpast : s.cmd.targetM s.currentNodeIdx ≤ kin.positionM := by linarith
    refine ⟨hpast, ?_, mul_pos_of_neg_of_neg (by linarith) (by linarith)⟩
    rw [abs_sub_of_le hpast]
    linarith

/-! ## Two nodes close together -/

/-- Nodes at 1/4 m and 3/8 m. -/
def closeNodes : AutoDriveCommandPayload ℚ :=
  { (default : AutoDriveCommandPayload ℚ) with
    numNodes := 2
    route := fun i => ⟨⟨(i.val + 2) / 8, 0⟩, 1000⟩ }

/-- Samples at the given positions. -/
def samples (xs : List ℚ) : List ((EnvPtr → EnvironmentPayload ℚ) × Input ℚ) :=
  xs.map fun x => (fun _ => default, .kinematicsData ⟨0, 0, x, 0⟩ [])

theorem samples_undisturbed (xs : List ℚ) : Undisturbed (samples xs) := by
  intro i hi cmd
  obtain ⟨x, -, rfl⟩ := List.mem_map.1 hi
  exact fun h => nomatch h

theorem positions_samples (xs : List ℚ) : positions (samples xs) = xs := by
  induction xs with
  | nil => rfl
  | cons x xs ih => exact congrArg (x :: ·) ih

theorem closeNodes_increasing (i j : Nat) (hij : i < j) (hj : j < closeNodes.numNodes) :
    lt (closeNodes.targetM i) (closeNodes.targetM j) = true := by
  have hj2 : j < 2 := hj
  obtain rfl : i = 0 := by omega
  obtain rfl : j = 1 := by omega
  decide +kernel

/-- Half a metre in one sample passes both, and only the first is counted. -/
theorem closeNodes_missed :
    ¬ ∀ (s : AutonomousService ℚ) (cmd : AutoDriveCommandPayload ℚ)
      (deref : EnvPtr → EnvironmentPayload ℚ)
      (inputs : List ((EnvPtr → EnvironmentPayload ℚ) × Input ℚ)),
      1 ≤ cmd.numNodes → cmd.numNodes ≤ 8 →
      (∀ i j, i < j → j < cmd.numNodes → lt (cmd.targetM i) (cmd.targetM j) = true) →
      s.lastPosM ≤ cmd.targetM 0 → Undisturbed inputs →
      (s.lastPosM :: positions inputs).Pairwise (fun x y => le x y = true) →
      (∃ before x after, positions inputs = before ++ x :: after ∧
        Past (cmd.targetM (cmd.numNodes - 1)) x ∧ cmd.numNodes ≤ after.length) →
      Finished cmd (s.run ((deref, .autoDriveCommand cmd) :: inputs)).1 := by
  intro h
  have hdone := h init closeNodes (fun _ => default) (samples [1 / 2, 1 / 2, 1 / 2]) (by decide)
    (by decide) closeNodes_increasing (by decide +kernel) (samples_undisturbed _)
    (by rw [positions_samples]; decide +kernel)
    ⟨[], 1 / 2, [1 / 2, 1 / 2], positions_samples _, by decide +kernel, le_refl 2⟩
  have hactive := hdone.active
  revert hactive
  decide +kernel

/-- With a sample between the nodes both are counted. -/
theorem closeNodes_finished :
    Finished closeNodes ((init : AutonomousService ℚ).run ((fun _ => default,
        .autoDriveCommand closeNodes) :: samples [3 / 8, 1 / 2, 1 / 2, 1 / 2])).1 ↔
      ((init : AutonomousService ℚ).acceptCommand closeNodes).Along
        (fun s i => ¬ s.Overshoots i) (samples [3 / 8, 1 / 2, 1 / 2, 1 / 2]) :=
  route_finished_iff init closeNodes (by decide) (by decide) closeNodes_increasing
    (fun _ => default) _ (samples_undisturbed _) (by rw [positions_samples]; decide +kernel)
    ⟨[3 / 8], 1 / 2, [1 / 2, 1 / 2], positions_samples _, by decide +kernel, le_refl 2⟩

end AutonomousService

end ReflectPytest
