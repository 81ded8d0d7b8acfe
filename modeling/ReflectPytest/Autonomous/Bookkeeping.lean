import ReflectPytest.Autonomous.StopInForce
import ReflectPytest.Autonomous.ArrayAccess
import ReflectPytest.Library.FirstOccurrences

set_option autoImplicit false

/-! # Route and telemetry bookkeeping

The index of the current node, the flag of the route, the counters of the status and the list of
regions say the same thing in several places. `Consistent` is what holds between them after every
message, as long as commands fit into the route array. `run_bookkeeping` draws the consequence for
the telemetry: one status per completed route and none for any other. -/

namespace ReflectPytest

open FloatOps

variable {F : Type}

/-- The first `num_environments_used` entries of `environment_ids`. -/
def AutoDriveStatusPayload.regionIds (st : AutoDriveStatusPayload F) : List Nat :=
  (List.ofFn st.environmentIds).take st.numEnvironmentsUsed

/-- Writing the next entry appends it. -/
theorem take_ofFn_set {n : Nat} (a : StdArray Nat n) {k : Nat} (hk : k < n) (x : Nat) :
    (List.ofFn (a.set k x)).take (k + 1) = (List.ofFn a).take k ++ [x] := by
  have htake : (List.ofFn (a.set k x)).take k = (List.ofFn a).take k := by
    refine List.ext_getElem (by simp) fun i hi _ => ?_
    have hik : i ≠ k := by
      rw [List.length_take] at hi
      omega
    simp [StdArray.set, hik]
  rw [List.take_add_one, htake]
  simp [hk, StdArray.set]

/-- The statuses among the effects. -/
def autoDriveStatuses (es : List (Effect F)) : List (AutoDriveStatusPayload F) :=
  (messages es).filterMap fun
    | .autoDriveStatus st => some st
    | _ => none

@[simp] theorem autoDriveStatuses_nil : autoDriveStatuses ([] : List (Effect F)) = [] := rfl

@[simp] theorem autoDriveStatuses_append (es es' : List (Effect F)) :
    autoDriveStatuses (es ++ es') = autoDriveStatuses es ++ autoDriveStatuses es' := by
  simp [autoDriveStatuses]

namespace AutonomousService

variable [FloatOps F]

/-! ## Where statuses come from -/

section Statuses

variable (deref : EnvPtr → EnvironmentPayload F) (s : AutonomousService F)

theorem autoDriveStatuses_motorSequence : autoDriveStatuses
    (if s.routeActive then s.publishMotorSequenceForCurrentNode deref else []) = [] := by
  split <;> rfl

omit [FloatOps F] in
@[simp] theorem autoDriveStatuses_trackEnvironment (regionId : Nat) :
    autoDriveStatuses (s.trackEnvironment regionId).2 = [] := by
  unfold trackEnvironment
  split_ifs <;> rfl

@[simp] theorem autoDriveStatuses_onInternalEnvData (env : InternalEnvDataPayload) :
    autoDriveStatuses (s.onInternalEnvData deref env).2 = [] := by
  simp only [onInternalEnvData, autoDriveStatuses_append, autoDriveStatuses_trackEnvironment,
    List.nil_append]
  exact autoDriveStatuses_motorSequence deref _

@[simp] theorem autoDriveStatuses_onReplies (replies : List InternalEnvDataPayload) :
    autoDriveStatuses (s.onReplies deref replies).2 = [] := by
  induction replies generalizing s with
  | nil => rfl
  | cons env rest ih => simp [onReplies, ih]

@[simp] theorem autoDriveStatuses_answered (kin : KinematicsPayload F)
    (replies : List InternalEnvDataPayload) :
    autoDriveStatuses (s.answered deref kin replies).2 = [] := by
  unfold answered
  split_ifs <;> simp

@[simp] theorem autoDriveStatuses_requestEnvironment (kin : KinematicsPayload F) :
    autoDriveStatuses (s.requestEnvironment deref kin) = [] := by
  unfold requestEnvironment
  split_ifs <;> rfl

@[simp] theorem autoDriveStatuses_recordStats (positionM : F) :
    autoDriveStatuses (s.recordStats positionM).2 = [] := by
  unfold recordStats
  dsimp only
  split_ifs <;> rfl

omit [FloatOps F] in
@[simp] theorem autoDriveStatuses_onPhysicsTick : autoDriveStatuses s.onPhysicsTick = [] := by
  unfold onPhysicsTick
  split_ifs <;> rfl

@[simp] theorem autoDriveStatuses_onAutoDriveCommand (cmd : AutoDriveCommandPayload F) :
    autoDriveStatuses (s.onAutoDriveCommand deref cmd).2 = [] :=
  autoDriveStatuses_motorSequence deref _

end Statuses

/-! ## The invariant -/

/-- What the fields of the service say about each other between two messages. -/
structure Consistent (s : AutonomousService F) : Prop where
  active : s.routeActive = true ↔ s.currentNodeIdx < s.cmd.numNodes
  within : s.currentNodeIdx ≤ s.cmd.numNodes
  fits : s.cmd.numNodes ≤ 8
  counted : s.status.numStats = s.currentNodeIdx
  complete : s.status.routeComplete = true ↔
    0 < s.cmd.numNodes ∧ s.currentNodeIdx = s.cmd.numNodes
  distinct : s.usedEnvs.Nodup
  room : s.usedEnvs.length ≤ 4
  number : s.status.numEnvironmentsUsed = s.usedEnvs.length
  listed : s.status.regionIds = s.usedEnvs

theorem init_consistent : (init : AutonomousService F).Consistent where
  active := iff_of_false Bool.false_ne_true (Nat.not_lt_zero 0)
  within := le_refl 0
  fits := Nat.zero_le 8
  counted := rfl
  complete := iff_of_false Bool.false_ne_true fun h => Nat.not_lt_zero 0 h.1
  distinct := List.nodup_nil
  room := Nat.zero_le 4
  number := rfl
  listed := rfl

theorem acceptCommand_consistent (s : AutonomousService F) {cmd : AutoDriveCommandPayload F}
    (hcmd : cmd.numNodes ≤ 8) : (s.acceptCommand cmd).Consistent where
  active := decide_eq_true_iff
  within := Nat.zero_le _
  fits := hcmd
  counted := rfl
  complete := by
    refine iff_of_false Bool.false_ne_true ?_
    rintro ⟨hpos, hzero⟩
    exact absurd hzero hpos.ne
  distinct := List.nodup_nil
  room := Nat.zero_le 4
  number := rfl
  listed := rfl

section Steps

variable {s : AutonomousService F}

omit [FloatOps F] in
/-- The regions remembered after another one. -/
theorem trackEnvironment_usedEnvs (s : AutonomousService F) (regionId : Nat) :
    (s.trackEnvironment regionId).1.usedEnvs =
      if regionId ∈ s.usedEnvs then s.usedEnvs
      else if s.usedEnvs.length < 4 then s.usedEnvs ++ [regionId] else s.usedEnvs := by
  unfold trackEnvironment
  simp only [List.contains_iff_mem]
  split_ifs <;> rfl

omit [FloatOps F] in
theorem Consistent.track (hs : s.Consistent) (regionId : Nat) :
    (s.trackEnvironment regionId).1.Consistent := by
  have hmission := trackEnvironment_mission s regionId
  have hroom := hs.room
  by_cases hkeep : regionId ∈ s.usedEnvs ∨ ¬ s.usedEnvs.length < 4
  · have hsame : (s.trackEnvironment regionId).1 = s := by
      unfold trackEnvironment
      rcases hkeep with hknown | hfull
      · simp [hknown]
      · simp [hfull]
    rw [hsame]
    exact hs
  · obtain ⟨hnew, hless⟩ := not_or.1 hkeep
    have hless := not_not.1 hless
    have hnext : (s.usedEnvs.length + 1) % 2 ^ 8 = s.usedEnvs.length + 1 := by omega
    have hadd : (s.trackEnvironment regionId).1 = { s with
        usedEnvs := s.usedEnvs ++ [regionId]
        status := { s.status with
          numEnvironmentsUsed := s.usedEnvs.length + 1
          environmentIds := s.status.environmentIds.set s.usedEnvs.length regionId } } := by
      simp only [trackEnvironment, List.contains_iff_mem, hnew, if_false, hless, if_true,
        hs.number, hnext]
    rw [hadd]
    refine ⟨hs.active, hs.within, hs.fits, hs.counted, hs.complete, ?_, ?_, ?_, ?_⟩
    · refine List.nodup_append.2 ⟨hs.distinct, List.nodup_singleton _, fun a ha b hb heq => ?_⟩
      exact hnew (List.mem_singleton.1 hb ▸ heq ▸ ha)
    · simp only [List.length_append, List.length_singleton]
      omega
    · simp
    · have hlisted := hs.listed
      rw [AutoDriveStatusPayload.regionIds, hs.number] at hlisted
      rw [AutoDriveStatusPayload.regionIds, take_ofFn_set _ hless, hlisted]

theorem Consistent.reply (hs : s.Consistent) (deref : EnvPtr → EnvironmentPayload F)
    (env : InternalEnvDataPayload) : (s.onInternalEnvData deref env).1.Consistent := by
  have hptr : Consistent { s with currentEnvPtr := some env.ptr } :=
    ⟨hs.active, hs.within, hs.fits, hs.counted, hs.complete, hs.distinct, hs.room, hs.number,
      hs.listed⟩
  exact hptr.track _

omit [FloatOps F] in
theorem Consistent.idle_iff (hs : s.Consistent) : s.idle = true ↔ s.routeActive = false := by
  rw [← not_iff_not, Bool.not_eq_true, Bool.not_eq_false, idle_eq_false]
  exact ⟨And.left, fun h => ⟨h, hs.active.1 h⟩⟩

end Steps

/-! ## Routes from outside -/

/-- How many nodes of a route have been reached, and the position of the last sample. -/
structure Progress (F : Type) where
  nodes : Nat
  lastM : F

/-- Add one delivered message to the progress. -/
def Progress.sample (cmd : AutoDriveCommandPayload F) (p : Progress F) : Input F → Progress F
  | .kinematicsData kin _ =>
      { nodes :=
          if p.nodes < cmd.numNodes &&
              reached ((cmd.route.get? p.nodes).getD default).targetPos.x p.lastM kin.positionM then
            p.nodes + 1
          else p.nodes
        lastM := kin.positionM }
  | _ => p

/-- The progress on the route of `cmd`, accepted at `startM`. -/
def progress (cmd : AutoDriveCommandPayload F) (startM : F)
    (inputs : List ((EnvPtr → EnvironmentPayload F) × Input F)) : Progress F :=
  inputs.foldl (fun p i => p.sample cmd i.2) ⟨0, startM⟩

/-- The ids of the regions a message hands to the service on its route. -/
def uses (deref : EnvPtr → EnvironmentPayload F) (s : AutonomousService F) : Input F → List Nat
  | .internalEnvData env => if s.routeActive then [(deref env.ptr).regionId] else []
  | .kinematicsData kin replies =>
      if !s.idle && s.needsEnvironment deref kin.positionM then
        replies.map fun env => (deref env.ptr).regionId
      else []
  | _ => []

/-- The ids of the regions used on the route, with repetitions. -/
def regionsUsed (s : AutonomousService F) :
    List ((EnvPtr → EnvironmentPayload F) × Input F) → List Nat
  | [] => []
  | (deref, i) :: rest => s.uses deref i ++ (s.step deref i).1.regionsUsed rest

theorem regionsUsed_concat (s : AutonomousService F)
    (pre : List ((EnvPtr → EnvironmentPayload F) × Input F))
    (i : (EnvPtr → EnvironmentPayload F) × Input F) :
    s.regionsUsed (pre ++ [i]) = s.regionsUsed pre ++ (s.run pre).1.uses i.1 i.2 := by
  induction pre generalizing s with
  | nil => simp [regionsUsed, run]
  | cons j pre ih => simp only [List.cons_append, regionsUsed, run, ih, List.append_assoc]

/-- What has been published since the command, and what the service is to publish. -/
structure Reports (cmd : AutoDriveCommandPayload F) (p : Progress F) (used : List Nat)
    (reports : List (AutoDriveStatusPayload F)) (s : AutonomousService F) : Prop where
  consistent : s.Consistent
  command : s.cmd = cmd
  node : s.currentNodeIdx = p.nodes
  lastPos : s.lastPosM = p.lastM
  underway : p.nodes < cmd.numNodes → reports = [] ∧ s.usedEnvs = used.eraseDups.take 4
  empty : cmd.numNodes = 0 → reports = []
  done : 0 < cmd.numNodes → p.nodes = cmd.numNodes → ∃ st, reports = [st] ∧
    st.routeComplete = true ∧ st.numStats = cmd.numNodes ∧ st.regionIds = used.eraseDups.take 4

theorem acceptCommand_reports (s : AutonomousService F) {cmd : AutoDriveCommandPayload F}
    (hcmd : cmd.numNodes ≤ 8) : Reports cmd ⟨0, s.lastPosM⟩ [] [] (s.acceptCommand cmd) where
  consistent := s.acceptCommand_consistent hcmd
  command := rfl
  node := rfl
  lastPos := rfl
  underway _ := ⟨rfl, rfl⟩
  empty _ := rfl
  done hpos hzero := absurd hzero hpos.ne

section Mission

variable {cmd : AutoDriveCommandPayload F} {p : Progress F} {used : List Nat}
  {reports : List (AutoDriveStatusPayload F)} {s : AutonomousService F}

omit [FloatOps F] in
theorem Reports.active_iff (h : Reports cmd p used reports s) :
    s.routeActive = true ↔ p.nodes < cmd.numNodes := by
  rw [h.consistent.active, h.command, h.node]

/-- A region is handed to the service. -/
theorem Reports.reply (h : Reports cmd p used reports s)
    (deref : EnvPtr → EnvironmentPayload F) (env : InternalEnvDataPayload) :
    Reports cmd p (if s.routeActive then used ++ [(deref env.ptr).regionId] else used) reports
      (s.onInternalEnvData deref env).1 := by
  have hmission := onInternalEnvData_mission deref s env
  refine ⟨h.consistent.reply deref env, hmission.cmd.trans h.command, hmission.node.trans h.node,
    hmission.lastPos.trans h.lastPos, fun hahead => ?_, h.empty, fun hpos hlast => ?_⟩
  · obtain ⟨hnone, hused⟩ := h.underway hahead
    refine ⟨hnone, ?_⟩
    rw [if_pos (h.active_iff.2 hahead), List.take_eraseDups_concat, ← hused]
    exact trackEnvironment_usedEnvs _ _
  · have hoff : ¬ s.routeActive = true := fun hon => absurd hlast (h.active_iff.1 hon).ne
    rw [if_neg hoff]
    exact h.done hpos hlast

/-- The regions of the replies are handed to the service on its route. -/
theorem Reports.replies (h : Reports cmd p used reports s) (hactive : s.routeActive = true)
    (deref : EnvPtr → EnvironmentPayload F) (replies : List InternalEnvDataPayload) :
    Reports cmd p (used ++ replies.map fun env => (deref env.ptr).regionId) reports
      (s.onReplies deref replies).1 := by
  induction replies generalizing s used with
  | nil => simpa [onReplies] using h
  | cons env rest ih =>
      have hfirst := h.reply deref env
      rw [if_pos hactive] at hfirst
      have hrest := ih hfirst ((onInternalEnvData_mission deref s env).active.trans hactive)
      rw [List.append_assoc] at hrest
      exact hrest

/-- A sample on the route is checked, once the regions are handed over. -/
theorem Reports.check (h : Reports cmd p used reports s) (hactive : s.routeActive = true)
    (deref : EnvPtr → EnvironmentPayload F) (kin : KinematicsPayload F)
    (replies : List InternalEnvDataPayload) :
    let r := s.checkNode deref s.currentNodeIdx kin
    Reports cmd (p.sample cmd (.kinematicsData kin replies)) used
      (reports ++ autoDriveStatuses r.2) (r.1.rememberPosition kin) := by
  intro r
  have hahead := h.active_iff.1 hactive
  obtain ⟨hs, rfl, hnode, hlastPos, hunderway, -, -⟩ := h
  obtain ⟨rfl, hused⟩ := hunderway hahead
  have hfits := hs.fits
  have hlisted := hs.listed
  have htarget : (s.node s.currentNodeIdx).targetPos.x =
      ((s.cmd.route.get? p.nodes).getD default).targetPos.x := by
    rw [← hnode]
    rfl
  cases hreached : reached ((s.cmd.route.get? p.nodes).getD default).targetPos.x p.lastM
      kin.positionM with
  | false =>
      have hr : r = (s, []) := checkNode_miss deref (by rw [htarget, hlastPos, hreached])
      have hp : p.sample s.cmd (.kinematicsData kin replies) = ⟨p.nodes, kin.positionM⟩ := by
        simp [Progress.sample, hreached]
      rw [hr, hp]
      exact ⟨⟨hs.active, hs.within, hs.fits, hs.counted, hs.complete, hs.distinct, hs.room,
        hs.number, hs.listed⟩, rfl, hnode, rfl, fun _ => ⟨rfl, hused⟩, fun _ => rfl,
        fun _ hlast => absurd hlast hahead.ne⟩
  | true =>
      have hr : r = _ := checkNode_hit deref (by rw [htarget, hlastPos, hreached])
      have hp : p.sample s.cmd (.kinematicsData kin replies) = ⟨p.nodes + 1, kin.positionM⟩ := by
        simp [Progress.sample, hreached, hahead]
      have hcount : s.status.numStats = p.nodes := hs.counted.trans hnode
      have hroom : s.status.numStats < 8 := by omega
      have hstats : (s.status.numStats + 1) % 2 ^ 8 = p.nodes + 1 := by omega
      have hidx : (s.currentNodeIdx + 1) % 2 ^ 8 = p.nodes + 1 := by omega
      rw [hr, hp]
      simp only [autoDriveStatuses_append, autoDriveStatuses_recordStats, List.nil_append]
      simp only [recordStats, hroom, if_true, advanceNode, hidx, hstats]
      by_cases hlast : s.cmd.numNodes ≤ p.nodes + 1
      · -- The last node: the status goes out.
        have hend : p.nodes + 1 = s.cmd.numNodes := by omega
        simp only [hlast, if_true, rememberPosition]
        refine ⟨⟨?_, hend.le, hfits, rfl, ?_, hs.distinct, hs.room, hs.number, hlisted⟩, rfl, rfl,
          rfl, fun hless => absurd hend hless.ne, fun hzero => absurd hzero (by omega),
          fun _ _ => ⟨_, rfl, rfl, hend, hlisted.trans hused⟩⟩
        · exact iff_of_false Bool.false_ne_true hend.not_lt
        · exact iff_of_true rfl ⟨Nat.zero_lt_of_lt hahead, hend⟩
      · have hless : p.nodes + 1 < s.cmd.numNodes := not_le.1 hlast
        simp only [hlast, if_false, rememberPosition]
        refine ⟨⟨iff_of_true hactive hless, hless.le, hfits, rfl, ?_, hs.distinct, hs.room,
          hs.number, hlisted⟩, rfl, rfl, rfl, fun _ => ⟨rfl, hused⟩, fun _ => rfl,
          fun _ hend => absurd hend hless.ne⟩
        refine iff_of_false ?_ fun hend => absurd hend.2 hless.ne
        rw [hs.complete, hnode]
        exact fun hend => absurd hend.2 hahead.ne

/-- **Step lemma.** -/
theorem Reports.step (h : Reports cmd p used reports s) (deref : EnvPtr → EnvironmentPayload F)
    {i : Input F} (hcmd : ∀ cmd, i ≠ .autoDriveCommand cmd) :
    Reports cmd (p.sample cmd i) (used ++ s.uses deref i)
      (reports ++ autoDriveStatuses (s.step deref i).2) (s.step deref i).1 := by
  cases i with
  | autoDriveCommand c => exact absurd rfl (hcmd c)
  | powerData power =>
      have hs := h.consistent
      simp only [AutonomousService.step, uses, Progress.sample, autoDriveStatuses_nil,
        List.append_nil]
      exact ⟨⟨hs.active, hs.within, hs.fits, hs.counted, hs.complete, hs.distinct, hs.room,
        hs.number, hs.listed⟩, h.command, h.node, h.lastPos, h.underway, h.empty, h.done⟩
  | physicsTick => simpa [AutonomousService.step, uses, Progress.sample] using h
  | internalEnvData env =>
      have hreply := h.reply deref env
      simp only [AutonomousService.step, uses, Progress.sample,
        autoDriveStatuses_onInternalEnvData, List.append_nil]
      split at hreply
      · next hactive => rwa [if_pos hactive]
      · next hidle => rwa [if_neg hidle, List.append_nil]
  | kinematicsData kin replies =>
      cases hidle : s.idle with
      | true =>
          have hs := h.consistent
          have hover : ¬ p.nodes < cmd.numNodes := fun hless => by
            have hoff := hs.idle_iff.1 hidle
            rw [h.active_iff.2 hless] at hoff
            exact absurd hoff (by decide)
          have hp : p.sample cmd (.kinematicsData kin replies) = ⟨p.nodes, kin.positionM⟩ := by
            simp [Progress.sample, hover]
          rw [hp]
          simp only [AutonomousService.step, onKinematicsData, hidle, if_true, uses,
            Bool.not_true, Bool.false_and, Bool.false_eq_true, if_false, List.append_nil,
            autoDriveStatuses_nil]
          exact ⟨⟨hs.active, hs.within, hs.fits, hs.counted, hs.complete, hs.distinct, hs.room,
            hs.number, hs.listed⟩, h.command, h.node, rfl, h.underway, h.empty, h.done⟩
      | false =>
          have hactive := (idle_eq_false.1 hidle).1
          have hmission := answered_mission deref s kin replies
          have hanswered : Reports cmd p (used ++ s.uses deref (.kinematicsData kin replies))
              reports (s.answered deref kin replies).1 := by
            simp only [uses, hidle, Bool.not_false, Bool.true_and, answered]
            split
            · exact h.replies hactive deref replies
            · rwa [List.append_nil]
          have hcheck := hanswered.check (hmission.active.trans hactive) deref kin replies
          rw [hmission.node] at hcheck
          simp only [AutonomousService.step, onKinematicsData_eq deref s kin replies hidle,
            autoDriveStatuses_append, autoDriveStatuses_requestEnvironment,
            autoDriveStatuses_answered, List.nil_append]
          exact hcheck

/-- **Run lemma**: what a route has led to as long as no other command has arrived. -/
theorem run_reports (s : AutonomousService F) (hcmd : cmd.numNodes ≤ 8)
    (mission : List ((EnvPtr → EnvironmentPayload F) × Input F))
    (hmission : ∀ i ∈ mission, ∀ cmd, i.2 ≠ .autoDriveCommand cmd) :
    Reports cmd (progress cmd s.lastPosM mission) ((s.acceptCommand cmd).regionsUsed mission)
      (autoDriveStatuses ((s.acceptCommand cmd).run mission).2)
      ((s.acceptCommand cmd).run mission).1 := by
  induction mission using List.reverseRecOn with
  | nil => exact s.acceptCommand_reports hcmd
  | append_singleton mission i ih =>
      have hbefore := ih fun j hj => hmission j (List.mem_append_left _ hj)
      have hlast := hbefore.step i.1 (hmission i (List.mem_append_right _ List.mem_cons_self))
      rw [run_concat, regionsUsed_concat, autoDriveStatuses_append, progress, List.foldl_append]
      exact hlast

end Mission

/-- Every run leaves a consistent state. -/
theorem run_consistent (inputs : List ((EnvPtr → EnvironmentPayload F) × Input F))
    (hcmds : ∀ deref cmd, (deref, Input.autoDriveCommand cmd) ∈ inputs → cmd.numNodes ≤ 8) :
    ((init : AutonomousService F).run inputs).1.Consistent := by
  have hreports : ∃ cmd p used reports,
      Reports cmd p used reports ((init : AutonomousService F).run inputs).1 := by
    induction inputs using List.reverseRecOn with
    | nil =>
        exact ⟨default, ⟨0, 0⟩, [], [], init_consistent, rfl, rfl, rfl, fun _ => ⟨rfl, rfl⟩,
          fun _ => rfl, fun hpos => absurd hpos (Nat.not_lt_zero 0)⟩
    | append_singleton inputs i ih =>
        obtain ⟨cmd, p, used, reports, h⟩ :=
          ih fun d c hmem => hcmds d c (List.mem_append_left _ hmem)
        obtain ⟨deref, i⟩ := i
        rw [run_concat]
        by_cases hi : ∃ c, i = .autoDriveCommand c
        · obtain ⟨c, rfl⟩ := hi
          have hc := hcmds deref c (List.mem_append_right _ List.mem_cons_self)
          exact ⟨_, _, _, _, acceptCommand_reports _ hc⟩
        · exact ⟨_, _, _, _, h.step deref fun c hc => hi ⟨c, hc⟩⟩
  obtain ⟨_, _, _, _, h⟩ := hreports
  exact h.consistent

/-- **Bookkeeping over whole runs** with commands of at most eight nodes: every state is
    consistent, and a command yields nothing until its last node is reached, then one status that
    is complete, counts all nodes and lists the first four regions used, in order of first use. -/
theorem run_bookkeeping (inputs : List ((EnvPtr → EnvironmentPayload F) × Input F))
    (hcmds : ∀ deref cmd, (deref, Input.autoDriveCommand cmd) ∈ inputs → cmd.numNodes ≤ 8) :
    ((init : AutonomousService F).run inputs).1.Consistent ∧
      ∀ before deref cmd mission,
        before ++ (deref, Input.autoDriveCommand cmd) :: mission <+: inputs →
        (∀ i ∈ mission, ∀ cmd', i.2 ≠ .autoDriveCommand cmd') →
        let s := ((init : AutonomousService F).run before).1
        let published := autoDriveStatuses (s.run ((deref, .autoDriveCommand cmd) :: mission)).2
        let nodes := (progress cmd s.lastPosM mission).nodes
        nodes ≤ cmd.numNodes ∧
          (nodes < cmd.numNodes ∨ cmd.numNodes = 0 → published = []) ∧
          (0 < cmd.numNodes → nodes = cmd.numNodes → ∃ st, published = [st] ∧
            st.routeComplete = true ∧ st.numStats = cmd.numNodes ∧
            st.regionIds = ((s.acceptCommand cmd).regionsUsed mission).eraseDups.take 4) := by
  refine ⟨run_consistent inputs hcmds, fun before deref cmd mission hbefore hmission => ?_⟩
  intro s published nodes
  have hcmd : cmd.numNodes ≤ 8 :=
    hcmds deref cmd (hbefore.subset (List.mem_append_right _ List.mem_cons_self))
  have hpublished : published = autoDriveStatuses ((s.acceptCommand cmd).run mission).2 := by
    show autoDriveStatuses ((s.onAutoDriveCommand deref cmd).2 ++ _) = _
    rw [autoDriveStatuses_append, autoDriveStatuses_onAutoDriveCommand, List.nil_append]
  have h := run_reports s hcmd mission hmission
  have hwithin := h.consistent.within
  rw [h.command, h.node] at hwithin
  rw [hpublished]
  exact ⟨hwithin, fun hnot => hnot.elim (fun hless => (h.underway hless).1) h.empty, h.done⟩

/-! ## Five regions on one route -/

/-- A route to 100 m. -/
def longRoute : AutoDriveCommandPayload ℚ :=
  { (default : AutoDriveCommandPayload ℚ) with
    useEnvironmentTuning := true
    numNodes := 1
    route := fun _ => ⟨⟨100, 0⟩, 5000⟩ }

/-- The region at cache position `p` has the id `p` and covers ten metres. -/
def numbered (p : EnvPtr) : EnvironmentPayload ℚ :=
  { (default : EnvironmentPayload ℚ) with
    regionId := p
    bounds := ⟨⟨10 * p, -1⟩, ⟨10 * p + 10, 1⟩⟩ }

/-- A sample in each of five regions, then one at the node, where nothing is known. -/
def fiveRegions : List ((EnvPtr → EnvironmentPayload ℚ) × Input ℚ) :=
  [0, 1, 2, 3, 4].map (fun p : Nat => (numbered, .kinematicsData ⟨0, 0, 10 * p + 5, 0⟩ [⟨p⟩])) ++
    [(numbered, .kinematicsData ⟨0, 0, 100, 0⟩ [])]

theorem fiveRegions_mission : ∀ i ∈ fiveRegions, ∀ cmd, i.2 ≠ .autoDriveCommand cmd := by
  intro i hi cmd hcmd
  simp only [fiveRegions, List.map_cons, List.map_nil, List.cons_append, List.nil_append,
    List.mem_cons, List.not_mem_nil, or_false] at hi
  rcases hi with rfl | rfl | rfl | rfl | rfl | rfl <;> simp at hcmd

theorem longRoute_fits (deref : EnvPtr → EnvironmentPayload ℚ) (cmd : AutoDriveCommandPayload ℚ)
    (h : (deref, Input.autoDriveCommand cmd) ∈
      (numbered, .autoDriveCommand longRoute) :: fiveRegions) : cmd.numNodes ≤ 8 := by
  rcases List.mem_cons.1 h with heq | hmem
  · rw [Input.autoDriveCommand.inj (Prod.mk.inj heq).2]
    decide
  · exact absurd rfl (fiveRegions_mission _ hmem cmd)

/-- The fifth region is missing from the status. -/
theorem fiveRegions_truncated :
    ¬ ∀ (inputs : List ((EnvPtr → EnvironmentPayload ℚ) × Input ℚ)),
      (∀ deref cmd, (deref, Input.autoDriveCommand cmd) ∈ inputs → cmd.numNodes ≤ 8) →
      ∀ before deref cmd mission,
        before ++ (deref, Input.autoDriveCommand cmd) :: mission <+: inputs →
        (∀ i ∈ mission, ∀ cmd', i.2 ≠ .autoDriveCommand cmd') →
        let s := ((init : AutonomousService ℚ).run before).1
        ∀ st ∈ autoDriveStatuses (s.run ((deref, .autoDriveCommand cmd) :: mission)).2,
          st.regionIds = ((s.acceptCommand cmd).regionsUsed mission).eraseDups := by
  intro h
  have hlisted := h _ longRoute_fits [] numbered longRoute fiveRegions (List.prefix_refl _)
    fiveRegions_mission
  have hstatus : ((autoDriveStatuses ((init : AutonomousService ℚ).run
      ((numbered, .autoDriveCommand longRoute) :: fiveRegions)).2).map
        AutoDriveStatusPayload.regionIds) = [[0, 1, 2, 3]] := by
    decide +kernel
  have hused : ((init.acceptCommand longRoute).regionsUsed fiveRegions).eraseDups =
      [0, 1, 2, 3, 4] := by
    decide +kernel
  obtain ⟨st, hst, hids⟩ := List.mem_map.1 (hstatus ▸ List.mem_cons_self :
    [0, 1, 2, 3] ∈ (autoDriveStatuses ((init : AutonomousService ℚ).run
      ((numbered, .autoDriveCommand longRoute) :: fiveRegions)).2).map
        AutoDriveStatusPayload.regionIds)
  have heq := (hlisted st hst).trans hused
  rw [hids] at heq
  exact absurd heq (by decide)

/-- The first four are listed. -/
theorem fiveRegions_reported : ∃ st : AutoDriveStatusPayload ℚ,
    autoDriveStatuses ((init : AutonomousService ℚ).run
      ((numbered, .autoDriveCommand longRoute) :: fiveRegions)).2 = [st] ∧
      st.routeComplete = true ∧ st.numStats = 1 ∧ st.regionIds = [0, 1, 2, 3] := by
  obtain ⟨-, hall⟩ := run_bookkeeping _ longRoute_fits
  obtain ⟨-, -, hdone⟩ := hall [] numbered longRoute fiveRegions (List.prefix_refl _)
    fiveRegions_mission
  obtain ⟨st, hpublished, hcomplete, hcount, hids⟩ := hdone (by decide) (by decide +kernel)
  exact ⟨st, hpublished, hcomplete, hcount, hids.trans (by decide +kernel)⟩

end AutonomousService

end ReflectPytest
