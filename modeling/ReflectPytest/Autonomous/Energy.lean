import ReflectPytest.Services.Autonomous
import Mathlib.Algebra.BigOperators.Group.List.Basic
import Mathlib.Algebra.BigOperators.Intervals
import Mathlib.Tactic.Linarith
import Mathlib.Tactic.Ring

set_option autoImplicit false

/-! # Energy accounting of a route

What a route looks like from outside is a sequence of legs (`legsOf`), each with the energy sampled
between two reached nodes and the positions at its ends. `Accounts` says that a status reports those
legs: markers that chain up, per-leg totals, and energy per metre of the leg alone.

The service sets its start markers when the command arrives and never again, so every node is
charged from the start of the route (`run_status`). `accounts_iff` is the exact condition under
which that is the same thing. Arithmetic is exact here. -/

namespace ReflectPytest

open FloatOps

/-! ## Legs -/

/-- The part of a drive that ends with a node being reached. -/
structure Leg where
  energyJ : ℚ
  fromM : ℚ
  toM : ℚ

def Leg.distanceM (l : Leg) : ℚ := |l.toM - l.fromM|

/-- The energy of a sequence of legs. -/
def energyOf (legs : List Leg) : ℚ := (legs.map Leg.energyJ).sum

@[simp] theorem energyOf_nil : energyOf [] = 0 := rfl

@[simp] theorem energyOf_append (l l' : List Leg) :
    energyOf (l ++ l') = energyOf l + energyOf l' := by
  simp [energyOf]

@[simp] theorem energyOf_singleton (l : Leg) : energyOf [l] = l.energyJ := by
  simp [energyOf]

/-- The completed legs, and the one under way. -/
structure Journey where
  legs : List Leg
  energyJ : ℚ
  fromM : ℚ
  lastM : ℚ

namespace Journey

def start (positionM : ℚ) : Journey := ⟨[], 0, positionM, positionM⟩

/-- The sample reaches the next node of the route. -/
def arrives (cmd : AutoDriveCommandPayload ℚ) (j : Journey) (positionM : ℚ) : Bool :=
  decide (j.legs.length < cmd.numNodes) &&
    AutonomousService.reached ((cmd.route.get? j.legs.length).getD default).targetPos.x j.lastM
      positionM

/-- Add one delivered message to the journey. -/
def sample (cmd : AutoDriveCommandPayload ℚ) (j : Journey) : AutonomousService.Input ℚ → Journey
  | .powerData power => { j with energyJ := j.energyJ + AutonomousService.sampleEnergyJ power }
  | .kinematicsData kin _ =>
      if j.arrives cmd kin.positionM then
        ⟨j.legs ++ [⟨j.energyJ, j.fromM, kin.positionM⟩], 0, kin.positionM, kin.positionM⟩
      else { j with lastM := kin.positionM }
  | _ => j

/-- Once all nodes are reached the legs stay as they are. -/
theorem sample_legs {cmd : AutoDriveCommandPayload ℚ} {j : Journey}
    (hj : j.legs.length = cmd.numNodes) (i : AutonomousService.Input ℚ) :
    (j.sample cmd i).legs = j.legs := by
  cases i <;> simp [sample, arrives, hj]

end Journey

section Legs

variable (cmd : AutoDriveCommandPayload ℚ)

/-- The journey `j` after the given messages. -/
def journeyFrom (j : Journey)
    (inputs : List ((EnvPtr → EnvironmentPayload ℚ) × AutonomousService.Input ℚ)) : Journey :=
  inputs.foldl (fun j i => j.sample cmd i.2) j

/-- The legs of a drive that starts at `positionM`. -/
def legsOf (positionM : ℚ)
    (inputs : List ((EnvPtr → EnvironmentPayload ℚ) × AutonomousService.Input ℚ)) : List Leg :=
  (journeyFrom cmd (Journey.start positionM) inputs).legs

theorem journeyFrom_cons (j : Journey) (deref : EnvPtr → EnvironmentPayload ℚ)
    (i : AutonomousService.Input ℚ)
    (rest : List ((EnvPtr → EnvironmentPayload ℚ) × AutonomousService.Input ℚ)) :
    journeyFrom cmd j ((deref, i) :: rest) = journeyFrom cmd (j.sample cmd i) rest := rfl

theorem journeyFrom_legs {j : Journey} (hj : j.legs.length = cmd.numNodes)
    (inputs : List ((EnvPtr → EnvironmentPayload ℚ) × AutonomousService.Input ℚ)) :
    (journeyFrom cmd j inputs).legs = j.legs := by
  induction inputs generalizing j with
  | nil => rfl
  | cons i rest ih =>
      have hsame := Journey.sample_legs hj i.2
      exact (ih (hsame ▸ hj)).trans hsame

end Legs

/-! ## Accounting -/

/-- The statistics a status reports for node `i`. -/
def AutoDriveStatusPayload.stat (st : AutoDriveStatusPayload ℚ) (i : Nat) : ManeuverStats ℚ :=
  (st.nodeStats.get? i).getD default

/-- The status reports exactly the given legs. -/
structure Accounts (legs : List Leg) (st : AutoDriveStatusPayload ℚ) : Prop where
  count : st.numStats = legs.length
  first : (st.stat 0).initialEnergyMj = 0
  chained : ∀ i, i + 1 < legs.length →
    (st.stat (i + 1)).initialEnergyMj = (st.stat i).finalEnergyMj
  total : ∀ i (h : i < legs.length), (st.stat i).totalEnergyUsedMj = legs[i].energyJ * 1000
  sum : ∑ i ∈ Finset.range legs.length, (st.stat i).totalEnergyUsedMj =
    (st.stat (legs.length - 1)).finalEnergyMj
  perMeter : ∀ i (h : i < legs.length), (st.stat i).energyPerMeterMj =
    if 1 / 100 < legs[i].distanceM then (st.stat i).totalEnergyUsedMj / legs[i].distanceM else 0

/-- What the service reports for a node reached at `toM` after `energyJ`, both counted from the
    start of the route. -/
def chargedFromStart (startM energyJ toM : ℚ) : ManeuverStats ℚ :=
  { initialEnergyMj := 0
    finalEnergyMj := energyJ * 1000
    energyPerMeterMj := if 1 / 100 < |toM - startM| then energyJ * 1000 / |toM - startM| else 0
    totalEnergyUsedMj := energyJ * 1000 }

/-- The statistics array after the given legs of a route that started at `startM`. -/
def Recorded (startM : ℚ) (legs : List Leg) (nodeStats : StdArray (ManeuverStats ℚ) 8) : Prop :=
  ∀ i (h : i < legs.length), nodeStats.get? i =
    some (chargedFromStart startM (energyOf (legs.take (i + 1))) legs[i].toM)

/-- Appending the next leg's statistics records the next leg. -/
theorem Recorded.append {startM : ℚ} {legs : List Leg} {nodeStats : StdArray (ManeuverStats ℚ) 8}
    (hrec : Recorded startM legs nodeStats) (hroom : legs.length < 8) (leg : Leg) :
    Recorded startM (legs ++ [leg]) (nodeStats.set legs.length
      (chargedFromStart startM (energyOf (legs ++ [leg])) leg.toM)) := by
  intro i hi
  rcases Nat.lt_succ_iff_lt_or_eq.1 (by simpa using hi) with hlt | rfl
  · rw [StdArray.get?_set_ne _ (Nat.ne_of_lt hlt), hrec i hlt, List.getElem_append_left hlt,
      List.take_append_of_le_length hlt]
  · rw [StdArray.get?_set_self _ hroom, List.getElem_append_right (Nat.le_refl _),
      List.take_of_length_le (by simp)]
    simp

namespace AutonomousService

/-! ## The service follows the journey -/

/-- The statuses among the effects. -/
def statuses (es : List (Effect ℚ)) : List (AutoDriveStatusPayload ℚ) :=
  es.filterMap fun
    | .publish (.autoDriveStatus st) => some st
    | _ => none

@[simp] theorem statuses_nil : statuses [] = [] := rfl

@[simp] theorem statuses_append (es es' : List (Effect ℚ)) :
    statuses (es ++ es') = statuses es ++ statuses es' := List.filterMap_append

theorem mem_statuses {es : List (Effect ℚ)} {st : AutoDriveStatusPayload ℚ} :
    st ∈ statuses es ↔ Effect.publish (.autoDriveStatus st) ∈ es := by
  simp only [statuses, List.mem_filterMap]
  constructor
  · rintro ⟨e, he, heq⟩
    split at heq
    · obtain rfl := Option.some.inj heq
      exact he
    · exact absurd heq (by simp)
  · exact fun h => ⟨_, h, rfl⟩

@[simp] theorem statuses_publishMotorSequence (deref : EnvPtr → EnvironmentPayload ℚ)
    (s : AutonomousService ℚ) : statuses (s.publishMotorSequenceForCurrentNode deref) = [] := rfl

theorem statuses_motorSequence (deref : EnvPtr → EnvironmentPayload ℚ) (s : AutonomousService ℚ) :
    statuses (if s.routeActive then s.publishMotorSequenceForCurrentNode deref else []) = [] := by
  split <;> rfl

@[simp] theorem statuses_trackEnvironment (s : AutonomousService ℚ) (regionId : Nat) :
    statuses (s.trackEnvironment regionId).2 = [] := by
  unfold trackEnvironment
  split_ifs <;> rfl

@[simp] theorem statuses_onInternalEnvData (deref : EnvPtr → EnvironmentPayload ℚ)
    (s : AutonomousService ℚ) (env : InternalEnvDataPayload) :
    statuses (s.onInternalEnvData deref env).2 = [] := by
  simp only [onInternalEnvData, statuses_append, statuses_trackEnvironment, List.nil_append]
  exact statuses_motorSequence deref _

@[simp] theorem statuses_onReplies (deref : EnvPtr → EnvironmentPayload ℚ)
    (s : AutonomousService ℚ) (replies : List InternalEnvDataPayload) :
    statuses (s.onReplies deref replies).2 = [] := by
  induction replies generalizing s with
  | nil => rfl
  | cons env rest ih => simp [onReplies, ih]

@[simp] theorem statuses_answered (deref : EnvPtr → EnvironmentPayload ℚ) (s : AutonomousService ℚ)
    (kin : KinematicsPayload ℚ) (replies : List InternalEnvDataPayload) :
    statuses (s.answered deref kin replies).2 = [] := by
  unfold answered
  split_ifs <;> simp

@[simp] theorem statuses_requestEnvironment (deref : EnvPtr → EnvironmentPayload ℚ)
    (s : AutonomousService ℚ) (kin : KinematicsPayload ℚ) :
    statuses (s.requestEnvironment deref kin) = [] := by
  unfold requestEnvironment
  split_ifs <;> rfl

/-- The service is driving the route of `cmd`, which started at `startM`, and has followed the
    journey `j` so far. -/
structure Tracks (cmd : AutoDriveCommandPayload ℚ) (startM : ℚ) (s : AutonomousService ℚ)
    (j : Journey) : Prop where
  command : s.cmd = cmd
  active : s.routeActive = true
  node : s.currentNodeIdx = j.legs.length
  ahead : j.legs.length < cmd.numNodes
  count : s.status.numStats = j.legs.length
  energy : s.currentTotalEnergyJ = energyOf j.legs + j.energyJ
  startEnergy : s.nodeStartEnergyJ = 0
  startPos : s.nodeStartPosM = startM
  lastPos : s.lastPosM = j.lastM
  recorded : Recorded startM j.legs s.status.nodeStats

section Tracks

variable {cmd : AutoDriveCommandPayload ℚ} {startM : ℚ} {s s' : AutonomousService ℚ} {j : Journey}

theorem Tracks.sameMission (ht : Tracks cmd startM s j) (h : s.SameMission s') :
    Tracks cmd startM s' j :=
  { command := h.cmd.trans ht.command
    active := h.active.trans ht.active
    node := h.node.trans ht.node
    ahead := ht.ahead
    count := h.numStats.trans ht.count
    energy := h.energy.trans ht.energy
    startEnergy := h.startEnergy.trans ht.startEnergy
    startPos := h.startPos.trans ht.startPos
    lastPos := h.lastPos.trans ht.lastPos
    recorded := h.nodeStats ▸ ht.recorded }

theorem Tracks.idle (ht : Tracks cmd startM s j) : s.idle = false :=
  idle_eq_false.2 ⟨ht.active, by rw [ht.node, ht.command]; exact ht.ahead⟩

/-- The service and the journey agree on when the next node is reached. -/
theorem Tracks.reached_eq (ht : Tracks cmd startM s j) (positionM : ℚ) :
    reached (s.node s.currentNodeIdx).targetPos.x s.lastPosM positionM =
      j.arrives cmd positionM := by
  simp [Journey.arrives, AutonomousService.node, ht.node, ht.command, ht.lastPos, ht.ahead]

theorem tracks_acceptCommand (s : AutonomousService ℚ) (hn : 1 ≤ cmd.numNodes) :
    Tracks cmd s.lastPosM (s.acceptCommand cmd) (Journey.start s.lastPosM) :=
  { command := rfl
    active := decide_eq_true hn
    node := rfl
    ahead := hn
    count := rfl
    energy := (add_zero (0 : ℚ)).symm
    startEnergy := rfl
    startPos := rfl
    lastPos := rfl
    recorded := fun _ h => absurd h (Nat.not_lt_zero _) }

/-- The leg a node reached at `positionM` completes. -/
abbrev Journey.completed (j : Journey) (positionM : ℚ) : List Leg :=
  j.legs ++ [⟨j.energyJ, j.fromM, positionM⟩]

/-- Recording the statistics of a reached node records the leg it completes. -/
theorem Tracks.recordStats (ht : Tracks cmd startM s j) (hn : cmd.numNodes ≤ 8) (positionM : ℚ) :
    (s.recordStats positionM).1 = { s with status := { s.status with
        numStats := j.legs.length + 1
        nodeStats := s.status.nodeStats.set j.legs.length
          (chargedFromStart startM (energyOf (Journey.completed j positionM)) positionM) } } ∧
      statuses (s.recordStats positionM).2 = [] := by
  have hroom : j.legs.length < 8 := lt_of_lt_of_le ht.ahead hn
  have hstats : s.legStats positionM =
      chargedFromStart startM (energyOf (Journey.completed j positionM)) positionM := by
    simp [legStats, chargedFromStart, ht.energy, ht.startEnergy, ht.startPos]
  have hcount : (j.legs.length + 1) % 2 ^ 8 = j.legs.length + 1 := by omega
  simp only [AutonomousService.recordStats, ht.count, hroom, if_true, hstats, hcount, true_and]
  rfl

/-- A power sample is charged to the leg under way. -/
theorem Tracks.power (ht : Tracks cmd startM s j) (power : PowerPayload ℚ) :
    Tracks cmd startM (s.onPowerData power) (j.sample cmd (.powerData power)) :=
  { command := ht.command
    active := ht.active
    node := ht.node
    ahead := ht.ahead
    count := ht.count
    energy := by simp [onPowerData, ht.energy, Journey.sample, add_assoc]
    startEnergy := ht.startEnergy
    startPos := ht.startPos
    lastPos := ht.lastPos
    recorded := ht.recorded }

/-- A sample that reaches no node is remembered. -/
theorem Tracks.miss (ht : Tracks cmd startM s j) (deref : EnvPtr → EnvironmentPayload ℚ)
    {kin : KinematicsPayload ℚ} (hmiss : j.arrives cmd kin.positionM = false) :
    s.checkNode deref s.currentNodeIdx kin = (s, []) ∧
      Tracks cmd startM (s.rememberPosition kin) { j with lastM := kin.positionM } := by
  refine ⟨checkNode_miss deref ((ht.reached_eq _).trans hmiss), ?_⟩
  exact ⟨ht.command, ht.active, ht.node, ht.ahead, ht.count, ht.energy, ht.startEnergy, ht.startPos,
    rfl, ht.recorded⟩

/-- A sample that reaches a node records its leg; at the last node the status goes out and the route
    ends, before it the service follows the next leg. -/
theorem Tracks.hit (ht : Tracks cmd startM s j) (hn : cmd.numNodes ≤ 8)
    (deref : EnvPtr → EnvironmentPayload ℚ) {kin : KinematicsPayload ℚ}
    (hhit : j.arrives cmd kin.positionM = true) :
    let legs := Journey.completed j kin.positionM
    let r := s.checkNode deref s.currentNodeIdx kin
    (legs.length < cmd.numNodes ∧ statuses r.2 = [] ∧
      Tracks cmd startM (r.1.rememberPosition kin) ⟨legs, 0, kin.positionM, kin.positionM⟩) ∨
    (legs.length = cmd.numNodes ∧ r.1.routeActive = false ∧
      ∃ st, statuses r.2 = [st] ∧ st.numStats = legs.length ∧
        Recorded startM legs st.nodeStats) := by
  intro legs r
  have hlen : legs.length = j.legs.length + 1 := by simp [legs]
  have hahead := ht.ahead
  have hidx : (j.legs.length + 1) % 2 ^ 8 = j.legs.length + 1 := by omega
  obtain ⟨hrecord, hnone⟩ := ht.recordStats hn kin.positionM
  have hrecorded := ht.recorded.append (by omega) ⟨j.energyJ, j.fromM, kin.positionM⟩
  have hr : r = _ := checkNode_hit deref ((ht.reached_eq _).trans hhit)
  have hnode : (s.recordStats kin.positionM).1.currentNodeIdx = j.legs.length := by
    rw [hrecord]
    exact ht.node
  have hcmd : (s.recordStats kin.positionM).1.cmd = cmd := by
    rw [hrecord]
    exact ht.command
  rw [hr, statuses_append, hnone, List.nil_append]
  by_cases hmore : legs.length < cmd.numNodes
  · have hnext : ¬ cmd.numNodes ≤ j.legs.length + 1 := not_le.2 (hlen ▸ hmore)
    refine Or.inl ⟨hmore, ?_⟩
    simp only [advanceNode, hnode, hidx, hcmd, hnext, if_false, statuses_publishMotorSequence,
      true_and]
    rw [hrecord]
    exact
      { command := rfl
        active := ht.active
        node := hlen.symm
        ahead := hmore
        count := hlen.symm
        energy := by simp [rememberPosition, legs, ht.energy]
        startEnergy := ht.startEnergy
        startPos := ht.startPos
        lastPos := rfl
        recorded := hrecorded }
  · have hdone : cmd.numNodes ≤ j.legs.length + 1 := hlen ▸ not_lt.1 hmore
    refine Or.inr ⟨by omega, ?_⟩
    simp only [advanceNode, hnode, hidx, hcmd, hdone, if_true, true_and]
    refine ⟨_, rfl, ?_, ?_⟩ <;> rw [hrecord]
    · exact hlen.symm
    · exact hrecorded

end Tracks

/-! ## Runs -/

/-- No other command arrives. -/
def Undisturbed {F : Type} (inputs : List ((EnvPtr → EnvironmentPayload F) × Input F)) : Prop :=
  ∀ i ∈ inputs, ∀ cmd, i.2 ≠ .autoDriveCommand cmd

/-- Without an active route and without a new command no status goes out. -/
theorem run_statuses_idle {s : AutonomousService ℚ} (hs : s.routeActive = false)
    (inputs : List ((EnvPtr → EnvironmentPayload ℚ) × Input ℚ)) (hin : Undisturbed inputs) :
    statuses (s.run inputs).2 = [] := by
  induction inputs generalizing s with
  | nil => rfl
  | cons input rest ih =>
      obtain ⟨deref, i⟩ := input
      have hrest : Undisturbed rest := fun i hi => hin i (List.mem_cons_of_mem _ hi)
      have hstep : (s.step deref i).1.routeActive = false ∧ statuses (s.step deref i).2 = [] := by
        cases i with
        | autoDriveCommand cmd => exact absurd rfl (hin _ List.mem_cons_self cmd)
        | internalEnvData env =>
            exact ⟨(onInternalEnvData_mission deref s env).active.trans hs,
              statuses_onInternalEnvData deref s env⟩
        | powerData power => exact ⟨hs, rfl⟩
        | kinematicsData kin replies => simp [step, onKinematicsData, idle, hs, rememberPosition]
        | physicsTick => simp [step, onPhysicsTick, hs]
      simp only [run, statuses_append, hstep.2, List.nil_append]
      exact ih hstep.1 hrest

/-- **Run lemma**: the status of a completed route charges every leg from the start of the route. -/
theorem run_status_of_tracks {cmd : AutoDriveCommandPayload ℚ} {startM : ℚ}
    {s : AutonomousService ℚ} {j : Journey} (ht : Tracks cmd startM s j) (hn : cmd.numNodes ≤ 8)
    (inputs : List ((EnvPtr → EnvironmentPayload ℚ) × Input ℚ)) (hin : Undisturbed inputs)
    {st : AutoDriveStatusPayload ℚ} (hst : st ∈ statuses (s.run inputs).2) :
    (journeyFrom cmd j inputs).legs.length = cmd.numNodes ∧
      st.numStats = (journeyFrom cmd j inputs).legs.length ∧
      Recorded startM (journeyFrom cmd j inputs).legs st.nodeStats := by
  induction inputs generalizing s j with
  | nil => exact absurd hst List.not_mem_nil
  | cons input rest ih =>
      obtain ⟨deref, i⟩ := input
      have hrest : Undisturbed rest := fun i hi => hin i (List.mem_cons_of_mem _ hi)
      simp only [run, statuses_append] at hst
      cases i with
      | autoDriveCommand cmd => exact absurd rfl (hin _ List.mem_cons_self cmd)
      | internalEnvData env =>
          simp only [step, statuses_onInternalEnvData, List.nil_append] at hst
          exact ih (ht.sameMission (onInternalEnvData_mission deref s env)) hrest hst
      | powerData power =>
          simp only [step, statuses_nil, List.nil_append] at hst
          exact ih (ht.power power) hrest hst
      | physicsTick =>
          have hnone : statuses s.onPhysicsTick = [] := by
            unfold onPhysicsTick
            split <;> rfl
          simp only [step, hnone, List.nil_append] at hst
          exact ih ht hrest hst
      | kinematicsData kin replies =>
          simp only [step, onKinematicsData_eq deref s kin replies ht.idle, statuses_append,
            statuses_requestEnvironment, statuses_answered, List.nil_append] at hst
          have hmission := answered_mission deref s kin replies
          have ht' := ht.sameMission hmission
          rw [← hmission.node] at hst
          rw [journeyFrom_cons]
          cases hhit : j.arrives cmd kin.positionM with
          | false =>
              obtain ⟨hcheck, hmiss⟩ := ht'.miss deref hhit
              rw [hcheck] at hst
              simp only [Journey.sample, hhit, Bool.false_eq_true, if_false]
              exact ih hmiss hrest hst
          | true =>
              simp only [Journey.sample, hhit, if_true]
              rcases ht'.hit hn deref hhit with ⟨-, hnone, hnext⟩ | ⟨hlen, hoff, st', hone, hrec⟩
              · rw [hnone, List.nil_append] at hst
                exact ih hnext hrest hst
              · -- The route is over: what follows publishes no status and completes no leg.
                have hquiet := run_statuses_idle (s := ((s.answered deref kin replies).1.checkNode
                  deref (s.answered deref kin replies).1.currentNodeIdx kin).1.rememberPosition kin)
                  hoff rest hrest
                rw [hquiet, hone, List.append_nil, List.mem_singleton] at hst
                subst hst
                rw [journeyFrom_legs cmd hlen rest]
                exact ⟨hlen, hrec⟩

/-- **What the service reports**: after a command of one to eight nodes, a status charges every leg
    of the drive from the start of the route. -/
theorem run_status (s : AutonomousService ℚ) {cmd : AutoDriveCommandPayload ℚ}
    (hn : 1 ≤ cmd.numNodes) (hn8 : cmd.numNodes ≤ 8) (deref : EnvPtr → EnvironmentPayload ℚ)
    (inputs : List ((EnvPtr → EnvironmentPayload ℚ) × Input ℚ)) (hin : Undisturbed inputs)
    {st : AutoDriveStatusPayload ℚ}
    (hst : .publish (.autoDriveStatus st) ∈ (s.run ((deref, .autoDriveCommand cmd) :: inputs)).2) :
    (legsOf cmd s.lastPosM inputs).length = cmd.numNodes ∧
      st.numStats = (legsOf cmd s.lastPosM inputs).length ∧
      Recorded s.lastPosM (legsOf cmd s.lastPosM inputs) st.nodeStats := by
  rw [← mem_statuses] at hst
  simp only [run, step, onAutoDriveCommand, statuses_append] at hst
  rw [statuses_motorSequence, List.nil_append] at hst
  exact run_status_of_tracks (tracks_acceptCommand s hn) hn8 inputs hin hst

end AutonomousService

/-! ## When the report is right -/

/-- No leg but the last used energy, and the last one used none either unless it is as long as the
    whole route, as far as the 0.01 m threshold can tell. -/
def OnlyLastCharged (startM : ℚ) (legs : List Leg) : Prop :=
  (∀ i (h : i + 1 < legs.length), legs[i].energyJ = 0) ∧
    ∀ leg ∈ legs.getLast?, leg.energyJ = 0 ∨ |leg.toM - startM| = leg.distanceM ∨
      (|leg.toM - startM| ≤ 1 / 100 ∧ leg.distanceM ≤ 1 / 100)

/-- When the legs before the `i`-th used no energy, the energy through it is its own. -/
theorem energyOf_take_succ {legs : List Leg} {i : Nat} (hi : i < legs.length)
    (hzero : ∀ k (h : k < i), legs[k].energyJ = 0) :
    energyOf (legs.take (i + 1)) = legs[i].energyJ := by
  rw [List.take_succ_eq_append_getElem hi, energyOf_append, energyOf_singleton]
  have hbefore : energyOf (legs.take i) = 0 := by
    refine List.sum_eq_zero fun e he => ?_
    obtain ⟨leg, hleg, rfl⟩ := List.mem_map.1 he
    obtain ⟨k, hk, rfl⟩ := List.mem_iff_getElem.1 hleg
    rw [List.length_take] at hk
    rw [List.getElem_take]
    exact hzero k (by omega)
  rw [hbefore, zero_add]

/-- Energy per metre over `D` and over `d`, both cut off at `least`, agree only trivially. -/
theorem perMeter_eq_iff {least : ℚ} (hleast : 0 < least) (energyMj D d : ℚ) :
    ((if least < D then energyMj / D else 0) = if least < d then energyMj / d else 0) ↔
      energyMj = 0 ∨ D = d ∨ (D ≤ least ∧ d ≤ least) := by
  by_cases hD : least < D <;> by_cases hd : least < d
  · have hD0 : D ≠ 0 := by linarith
    have hd0 : d ≠ 0 := by linarith
    simp only [hD, hd, if_true, div_eq_div_iff hD0 hd0, mul_eq_mul_left_iff, not_le.2 hD, false_and,
      or_false]
    rw [or_comm, eq_comm (a := d)]
  · have hD0 : D ≠ 0 := by linarith
    have hne : D ≠ d := by linarith
    simp [hD, hd, hD0, hne, not_le.2 hD]
  · have hd0 : d ≠ 0 := by linarith
    have hne : D ≠ d := by linarith
    simp [hD, hd, hd0, hne, not_le.2 hd, eq_comm]
  · simp [hD, hd, not_lt.1 hD, not_lt.1 hd]

section Recorded

variable {startM : ℚ} {legs : List Leg} {st : AutoDriveStatusPayload ℚ}

theorem Recorded.stat (hrec : Recorded startM legs st.nodeStats) {i : Nat} (hi : i < legs.length) :
    st.stat i = chargedFromStart startM (energyOf (legs.take (i + 1))) legs[i].toM := by
  rw [AutoDriveStatusPayload.stat, hrec i hi, Option.getD_some]

/-- A report that charges from the start of the route accounts for the legs only if no leg but the
    last is charged. -/
theorem Recorded.onlyLastCharged (hrec : Recorded startM legs st.nodeStats)
    (h : Accounts legs st) : OnlyLastCharged startM legs := by
  have htotal : ∀ i (hi : i < legs.length),
      energyOf (legs.take (i + 1)) = legs[i].energyJ := by
    intro i hi
    have := h.total i hi
    rw [hrec.stat hi] at this
    exact mul_right_cancel₀ (by norm_num) this
  refine ⟨fun i hi => ?_, fun leg hleg => ?_⟩
  · have := h.chained i hi
    rw [hrec.stat hi, hrec.stat (Nat.lt_of_succ_lt hi)] at this
    rw [← htotal i (Nat.lt_of_succ_lt hi)]
    simpa [chargedFromStart] using this.symm
  · obtain ⟨hlt, rfl⟩ := List.getElem?_eq_some_iff.1 (List.getLast?_eq_getElem? ▸ hleg)
    have := h.perMeter _ hlt
    rw [hrec.stat hlt, htotal _ hlt] at this
    simpa using (perMeter_eq_iff (by norm_num) _ _ _).1 this

/-- And that is enough. -/
theorem Recorded.accounts (hrec : Recorded startM legs st.nodeStats) (hlen : 0 < legs.length)
    (hcount : st.numStats = legs.length) (h : OnlyLastCharged startM legs) : Accounts legs st := by
  obtain ⟨hzero, hlast⟩ := h
  have htotal : ∀ i (hi : i < legs.length), energyOf (legs.take (i + 1)) = legs[i].energyJ :=
    fun i hi => energyOf_take_succ hi fun k hk => hzero k (by omega)
  have hstat : ∀ i (hi : i < legs.length),
      st.stat i = chargedFromStart startM legs[i].energyJ legs[i].toM :=
    fun i hi => by rw [hrec.stat hi, htotal i hi]
  refine
    { count := hcount
      first := by rw [hstat 0 hlen]; rfl
      chained := fun i hi => ?_
      total := fun i hi => by rw [hstat i hi]; rfl
      sum := ?_
      perMeter := fun i hi => ?_ }
  · rw [hstat (i + 1) hi, hstat i (Nat.lt_of_succ_lt hi), hzero i hi]
    simp [chargedFromStart]
  · obtain ⟨m, hm⟩ : ∃ m, legs.length = m + 1 := ⟨legs.length - 1, by omega⟩
    have hrest : ∑ i ∈ Finset.range m, (st.stat i).totalEnergyUsedMj = 0 := by
      refine Finset.sum_eq_zero fun i hi => ?_
      have hi' : i + 1 < legs.length := by
        have := Finset.mem_range.1 hi
        omega
      rw [hstat i (Nat.lt_of_succ_lt hi'), hzero i hi']
      simp [chargedFromStart]
    rw [hm, Finset.sum_range_succ, hrest, zero_add, Nat.add_sub_cancel, hstat m (by omega)]
    rfl
  · rw [hstat i hi]
    by_cases hi' : i + 1 < legs.length
    · simp [chargedFromStart, hzero i hi']
    · have hleg : legs[i] ∈ legs.getLast? := by
        have : legs.length - 1 = i := by omega
        rw [List.getLast?_eq_getElem?, this]
        exact List.getElem?_eq_getElem hi
      refine (perMeter_eq_iff (by norm_num) _ _ _).2 ?_
      simpa using hlast _ hleg

end Recorded

/-- **Energy accounting**: after a command of one to eight nodes, the final status reports the legs
    of the drive exactly when no leg but the last used energy, and the last one used none either
    unless its length is that of the whole route. -/
theorem accounts_iff (s : AutonomousService ℚ) (cmd : AutoDriveCommandPayload ℚ)
    (hn : 1 ≤ cmd.numNodes) (hn8 : cmd.numNodes ≤ 8) (deref : EnvPtr → EnvironmentPayload ℚ)
    (inputs : List ((EnvPtr → EnvironmentPayload ℚ) × AutonomousService.Input ℚ))
    (hin : AutonomousService.Undisturbed inputs) (st : AutoDriveStatusPayload ℚ)
    (hst : .publish (.autoDriveStatus st) ∈ (s.run ((deref, .autoDriveCommand cmd) :: inputs)).2) :
    Accounts (legsOf cmd s.lastPosM inputs) st ↔
      OnlyLastCharged s.lastPosM (legsOf cmd s.lastPosM inputs) := by
  obtain ⟨hlen, hcount, hrec⟩ := s.run_status hn hn8 deref inputs hin hst
  exact ⟨hrec.onlyLastCharged, hrec.accounts (by omega) hcount⟩

/-! ## A drive through two nodes -/

/-- Nodes at 1 m and 2 m. -/
def twoNodes : AutoDriveCommandPayload ℚ :=
  { (default : AutoDriveCommandPayload ℚ) with
    numNodes := 2
    route := fun i => ⟨⟨i.val + 1, 0⟩, 1000⟩ }

/-- A tenth of a joule on either metre. -/
def twoMetres : List ((EnvPtr → EnvironmentPayload ℚ) × AutonomousService.Input ℚ) :=
  [(fun _ => default, .powerData ⟨0, 10, 1, 100⟩),
    (fun _ => default, .kinematicsData ⟨0, 0, 1, 0⟩ []),
    (fun _ => default, .powerData ⟨0, 10, 1, 100⟩),
    (fun _ => default, .kinematicsData ⟨0, 0, 2, 0⟩ [])]

/-- The status that goes out at the second node. -/
def twoNodesStatus : AutoDriveStatusPayload ℚ :=
  { (default : AutoDriveStatusPayload ℚ) with
    cmdId := 1234
    currentNodeIdx := 2
    routeComplete := true
    numStats := 2
    nodeStats := StdArray.set (StdArray.set (fun _ => default) 0 ⟨0, 100, 100, 100⟩) 1
      ⟨0, 200, 100, 200⟩ }

theorem twoNodesStatus_published :
    .publish (.autoDriveStatus twoNodesStatus) ∈ ((AutonomousService.init : AutonomousService ℚ).run
      ((fun _ => default, .autoDriveCommand twoNodes) :: twoMetres)).2 := by
  decide +kernel

theorem twoMetres_undisturbed : AutonomousService.Undisturbed twoMetres := by
  simp [AutonomousService.Undisturbed, twoMetres]

/-- The second node is charged from the start of the route. -/
theorem twoNodes_misreported :
    ¬ ∀ (s : AutonomousService ℚ) (cmd : AutoDriveCommandPayload ℚ)
      (deref : EnvPtr → EnvironmentPayload ℚ)
      (inputs : List ((EnvPtr → EnvironmentPayload ℚ) × AutonomousService.Input ℚ))
      (st : AutoDriveStatusPayload ℚ), 1 ≤ cmd.numNodes → cmd.numNodes ≤ 8 →
      AutonomousService.Undisturbed inputs →
      .publish (.autoDriveStatus st) ∈ (s.run ((deref, .autoDriveCommand cmd) :: inputs)).2 →
      Accounts (legsOf cmd s.lastPosM inputs) st := by
  intro h
  have haccounts := h .init twoNodes (fun _ => default) twoMetres twoNodesStatus (by decide)
    (by decide) twoMetres_undisturbed twoNodesStatus_published
  have hchained := haccounts.chained 0 (by decide +kernel)
  revert hchained
  decide +kernel

theorem twoNodes_accounts_iff :
    Accounts (legsOf twoNodes 0 twoMetres) twoNodesStatus ↔
      OnlyLastCharged 0 (legsOf twoNodes 0 twoMetres) :=
  accounts_iff .init twoNodes (by decide) (by decide) (fun _ => default) twoMetres
    twoMetres_undisturbed twoNodesStatus twoNodesStatus_published

end ReflectPytest
