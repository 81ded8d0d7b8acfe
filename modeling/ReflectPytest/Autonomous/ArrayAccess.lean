import ReflectPytest.Services.Autonomous

set_option autoImplicit false

/-! # Array accesses of the waypoint controller

Each of the three arrays of `AutonomousService` is guarded differently: `node_stats` by an explicit
capacity test, `environment_ids` through the length of `used_envs_`, and `route` only by
`num_nodes`, which a datagram carries and nothing compares with the extent of the array. A run is
therefore in bounds exactly when it never steps past the last slot of a route that claims more nodes
than there are slots (`run_inBounds_iff`); commands of at most eight nodes never do. -/

namespace ReflectPytest

open FloatOps

variable {F : Type}

/-- Every array access among the effects is in bounds. -/
def AllInBounds (es : List (Effect F)) : Prop := ∀ a, Effect.access a ∈ es → a.InBounds

@[simp] theorem allInBounds_nil : AllInBounds ([] : List (Effect F)) := by
  intro a ha
  simp at ha

@[simp] theorem allInBounds_access (a : ArrayAccess) (es : List (Effect F)) :
    AllInBounds (.access a :: es) ↔ a.InBounds ∧ AllInBounds es := by
  simp [AllInBounds]

@[simp] theorem allInBounds_publish (m : Msg F) (es : List (Effect F)) :
    AllInBounds (.publish m :: es) ↔ AllInBounds es := by
  simp [AllInBounds]

@[simp] theorem allInBounds_append (es es' : List (Effect F)) :
    AllInBounds (es ++ es') ↔ AllInBounds es ∧ AllInBounds es' := by
  simp [AllInBounds, or_imp, forall_and]

variable [FloatOps F]

namespace AutonomousService

/-! ## The bounds the service keeps -/

/-- While a route is active its index is below both `num_nodes` and the extent of the array, and the
    telemetry counter counts the remembered regions. -/
structure Bounded (s : AutonomousService F) : Prop where
  node : s.routeActive = true → s.currentNodeIdx < s.cmd.numNodes
  slot : s.routeActive = true → s.currentNodeIdx < 8
  counted : s.status.numEnvironmentsUsed = s.usedEnvs.length
  room : s.usedEnvs.length ≤ 4

theorem init_bounded : (init : AutonomousService F).Bounded :=
  ⟨fun h => absurd h Bool.false_ne_true, fun h => absurd h Bool.false_ne_true, rfl, Nat.zero_le 4⟩

theorem acceptCommand_bounded (s : AutonomousService F) (cmd : AutoDriveCommandPayload F) :
    (s.acceptCommand cmd).Bounded :=
  ⟨fun h => of_decide_eq_true h, fun _ => Nat.zero_lt_succ 7, rfl, Nat.zero_le 4⟩

theorem publishMotorSequence_inBounds (deref : EnvPtr → EnvironmentPayload F)
    {s : AutonomousService F} (h : s.currentNodeIdx < 8) :
    AllInBounds (s.publishMotorSequenceForCurrentNode deref) := by
  simpa [publishMotorSequenceForCurrentNode, ArrayAccess.InBounds] using h

/-- The motor command of an active route reads a slot that exists. -/
theorem Bounded.motorSequence {s : AutonomousService F} (hs : s.Bounded)
    (deref : EnvPtr → EnvironmentPayload F) :
    AllInBounds (if s.routeActive then s.publishMotorSequenceForCurrentNode deref else []) := by
  split
  · next h => exact publishMotorSequence_inBounds deref (hs.slot h)
  · exact allInBounds_nil

/-! ## Environment data -/

omit [FloatOps F] in
theorem trackEnvironment_bounded {s : AutonomousService F} (hs : s.Bounded) (regionId : Nat) :
    (s.trackEnvironment regionId).1.Bounded ∧ AllInBounds (s.trackEnvironment regionId).2 := by
  obtain ⟨hcounted, hroom⟩ := And.intro hs.counted hs.room
  unfold trackEnvironment
  split_ifs with hknown hlen
  · exact ⟨hs, allInBounds_nil⟩
  · refine ⟨⟨hs.node, hs.slot, ?_, ?_⟩, ?_⟩
    · simp only [List.length_append, List.length_singleton, hcounted]
      omega
    · simp only [List.length_append, List.length_singleton]
      omega
    · simp only [allInBounds_access, allInBounds_nil, and_true, ArrayAccess.InBounds]
      omega
  · exact ⟨hs, allInBounds_nil⟩

theorem onInternalEnvData_bounded (deref : EnvPtr → EnvironmentPayload F) {s : AutonomousService F}
    (hs : s.Bounded) (env : InternalEnvDataPayload) :
    (s.onInternalEnvData deref env).1.Bounded ∧ AllInBounds (s.onInternalEnvData deref env).2 := by
  obtain ⟨hbounded, hes⟩ :=
    trackEnvironment_bounded (s := { s with currentEnvPtr := some env.ptr })
      ⟨hs.node, hs.slot, hs.counted, hs.room⟩ (deref env.ptr).regionId
  exact ⟨hbounded, (allInBounds_append _ _).2 ⟨hes, hbounded.motorSequence deref⟩⟩

theorem onReplies_bounded (deref : EnvPtr → EnvironmentPayload F) {s : AutonomousService F}
    (hs : s.Bounded) (replies : List InternalEnvDataPayload) :
    (s.onReplies deref replies).1.Bounded ∧ AllInBounds (s.onReplies deref replies).2 := by
  induction replies generalizing s with
  | nil => exact ⟨hs, allInBounds_nil⟩
  | cons env rest ih =>
      obtain ⟨hfirst, hes⟩ := onInternalEnvData_bounded deref hs env
      obtain ⟨hrest, hes'⟩ := ih hfirst
      exact ⟨hrest, (allInBounds_append _ _).2 ⟨hes, hes'⟩⟩

theorem answered_bounded (deref : EnvPtr → EnvironmentPayload F) {s : AutonomousService F}
    (hs : s.Bounded) (kin : KinematicsPayload F) (replies : List InternalEnvDataPayload) :
    (s.answered deref kin replies).1.Bounded ∧ AllInBounds (s.answered deref kin replies).2 := by
  unfold answered
  split_ifs
  · exact onReplies_bounded deref hs replies
  · exact ⟨hs, allInBounds_nil⟩

/-! ## Reaching a node -/

/-- The sample reaches the last slot of a route that claims more nodes than there are slots. -/
def PassesLastSlot (s : AutonomousService F) : Input F → Prop
  | .kinematicsData kin _ =>
      s.routeActive = true ∧ s.currentNodeIdx = 7 ∧ 8 < s.cmd.numNodes ∧
        reached (s.node 7).targetPos.x s.lastPosM kin.positionM = true
  | _ => False

theorem recordStats_inBounds (s : AutonomousService F) (positionM : F) :
    AllInBounds (s.recordStats positionM).2 := by
  unfold recordStats
  dsimp only
  split_ifs with h
  · simpa [ArrayAccess.InBounds] using h
  · exact allInBounds_nil

/-- Recording statistics touches nothing the bounds are about. -/
theorem recordStats_frame (s : AutonomousService F) (positionM : F) :
    ∃ status, (s.recordStats positionM).1 = { s with status := status } ∧
      status.numEnvironmentsUsed = s.status.numEnvironmentsUsed := by
  unfold recordStats
  dsimp only
  split_ifs
  · exact ⟨_, rfl, rfl⟩
  · exact ⟨s.status, rfl, rfl⟩

theorem recordStats_bounded {s : AutonomousService F} (hs : s.Bounded) (positionM : F) :
    (s.recordStats positionM).1.Bounded := by
  obtain ⟨status, heq, henv⟩ := s.recordStats_frame positionM
  rw [heq]
  exact ⟨hs.node, hs.slot, henv.trans hs.counted, hs.room⟩

/-- Stepping to the next node is in bounds unless the step passes the last slot. -/
theorem advanceNode_bounded (deref : EnvPtr → EnvironmentPayload F) {s : AutonomousService F}
    (hs : s.Bounded) (hslot : s.currentNodeIdx < 8)
    (hlast : s.currentNodeIdx = 7 → s.cmd.numNodes ≤ 8) :
    (s.advanceNode deref).1.Bounded ∧ AllInBounds (s.advanceNode deref).2 := by
  unfold advanceNode
  dsimp only
  split_ifs with hdone
  · exact ⟨⟨fun h => absurd h Bool.false_ne_true, fun h => absurd h Bool.false_ne_true,
      hs.counted, hs.room⟩, by simp⟩
  · have hnext : (s.currentNodeIdx + 1) % 2 ^ 8 < 8 := by omega
    exact ⟨⟨fun _ => not_le.1 hdone, fun _ => hnext, hs.counted, hs.room⟩,
      publishMotorSequence_inBounds deref hnext⟩

/-- Passing the last slot reads the route at index 8. -/
theorem advanceNode_overrun (deref : EnvPtr → EnvironmentPayload F) {s : AutonomousService F}
    (hidx : s.currentNodeIdx = 7) (hnodes : 8 < s.cmd.numNodes) :
    Effect.access (.route 8) ∈ (s.advanceNode deref).2 := by
  simp [advanceNode, hidx, Nat.not_le.2 hnodes, publishMotorSequenceForCurrentNode]

theorem requestEnvironment_inBounds (deref : EnvPtr → EnvironmentPayload F)
    (s : AutonomousService F) (kin : KinematicsPayload F) (h : s.currentNodeIdx < 8) :
    AllInBounds (s.requestEnvironment deref kin) := by
  unfold requestEnvironment
  split_ifs <;> simpa [ArrayAccess.InBounds] using h

theorem checkNode_bounded (deref : EnvPtr → EnvironmentPayload F) {s : AutonomousService F}
    (hs : s.Bounded) (kin : KinematicsPayload F) (hslot : s.currentNodeIdx < 8)
    (hlast : s.currentNodeIdx = 7 →
      reached (s.node 7).targetPos.x s.lastPosM kin.positionM = true → s.cmd.numNodes ≤ 8) :
    (s.checkNode deref s.currentNodeIdx kin).1.Bounded ∧
      AllInBounds (s.checkNode deref s.currentNodeIdx kin).2 := by
  unfold checkNode
  split_ifs with hreached
  · obtain ⟨status, heq, -⟩ := s.recordStats_frame kin.positionM
    have hrecorded := recordStats_bounded hs kin.positionM
    have hfacts : (s.recordStats kin.positionM).1.currentNodeIdx = s.currentNodeIdx ∧
        (s.recordStats kin.positionM).1.cmd = s.cmd := by
      rw [heq]
      exact ⟨rfl, rfl⟩
    obtain ⟨hbounded, hes⟩ := advanceNode_bounded deref hrecorded (by rw [hfacts.1]; exact hslot)
      (by rw [hfacts.1, hfacts.2]; exact fun h => hlast h (h ▸ hreached))
    exact ⟨hbounded, (allInBounds_append _ _).2 ⟨s.recordStats_inBounds kin.positionM, hes⟩⟩
  · exact ⟨hs, allInBounds_nil⟩

/-! ## Steps and runs -/

/-- **Step lemma**: from a bounded state, a step accesses the arrays in bounds exactly when it does
    not pass the last slot, and then leaves a bounded state. -/
theorem step_inBounds_iff (deref : EnvPtr → EnvironmentPayload F) {s : AutonomousService F}
    (hs : s.Bounded) (i : Input F) :
    (AllInBounds (s.step deref i).2 ↔ ¬ s.PassesLastSlot i) ∧
      (¬ s.PassesLastSlot i → (s.step deref i).1.Bounded) := by
  cases i with
  | autoDriveCommand cmd =>
      have hb := s.acceptCommand_bounded cmd
      exact ⟨iff_of_true (hb.motorSequence deref) id, fun _ => hb⟩
  | internalEnvData env =>
      obtain ⟨hb, hes⟩ := onInternalEnvData_bounded deref hs env
      exact ⟨iff_of_true hes id, fun _ => hb⟩
  | powerData power =>
      exact ⟨iff_of_true allInBounds_nil id, fun _ => ⟨hs.node, hs.slot, hs.counted, hs.room⟩⟩
  | physicsTick =>
      refine ⟨iff_of_true ?_ id, fun _ => hs⟩
      simp only [step, onPhysicsTick]
      split_ifs <;> simp
  | kinematicsData kin replies =>
      simp only [step]
      cases hidle : s.idle with
      | true =>
          have hnot : ¬ s.PassesLastSlot (.kinematicsData kin replies) := by
            rintro ⟨hactive, -, -, -⟩
            have := hs.node hactive
            simp only [idle, hactive, Bool.not_true, Bool.false_or, decide_eq_true_eq] at hidle
            omega
          have heq : s.onKinematicsData deref kin replies = (s.rememberPosition kin, []) := by
            simp [onKinematicsData, hidle]
          rw [heq]
          exact ⟨iff_of_true allInBounds_nil hnot,
            fun _ => ⟨hs.node, hs.slot, hs.counted, hs.room⟩⟩
      | false =>
          obtain ⟨hactive, -⟩ := idle_eq_false.1 hidle
          have hslot := hs.slot hactive
          obtain ⟨hb, hes⟩ := answered_bounded deref hs kin replies
          have hmission := answered_mission deref s kin replies
          obtain ⟨hcmd, hidx, hlastPos⟩ :=
            And.intro hmission.cmd (And.intro hmission.node hmission.lastPos)
          rw [onKinematicsData_eq deref s kin replies hidle]
          -- The replies keep the index, so the node checked is the one bound before the request.
          have hcheck := checkNode_bounded deref hb kin (hidx ▸ hslot)
          rw [hidx, hcmd, hlastPos] at hcheck
          by_cases hpass : s.PassesLastSlot (.kinematicsData kin replies)
          · obtain ⟨-, hseven, hnodes, hreached⟩ := hpass
            refine ⟨iff_of_false (fun hall => ?_) (not_not.2 ⟨hactive, hseven, hnodes, hreached⟩),
              fun h => absurd ⟨hactive, hseven, hnodes, hreached⟩ h⟩
            have hbad : Effect.access (.route 8) ∈
                ((s.answered deref kin replies).1.checkNode deref s.currentNodeIdx kin).2 := by
              obtain ⟨status, heq, -⟩ :=
                (s.answered deref kin replies).1.recordStats_frame kin.positionM
              have hr : reached ((s.answered deref kin replies).1.node s.currentNodeIdx).targetPos.x
                  (s.answered deref kin replies).1.lastPosM kin.positionM = true := by
                rw [hlastPos, hseven]
                simpa only [node, hcmd] using hreached
              rw [checkNode_hit deref hr]
              refine List.mem_append_right _ (advanceNode_overrun deref ?_ ?_)
              · rw [heq]
                exact hidx.trans hseven
              · rw [heq]
                exact hcmd ▸ hnodes
            have : ArrayAccess.InBounds (.route 8) := hall _ (List.mem_append_right _ hbad)
            exact absurd this (by decide)
          · obtain ⟨hb', hes'⟩ := hcheck fun hseven hreached => by
              by_contra hlt
              exact hpass ⟨hactive, hseven, not_le.1 hlt, by simpa only [node, hcmd] using hreached⟩
            refine ⟨iff_of_true ?_ hpass, fun _ => ⟨hb'.node, hb'.slot, hb'.counted, hb'.room⟩⟩
            simp only [allInBounds_append]
            exact ⟨⟨s.requestEnvironment_inBounds deref kin hslot, hes⟩, hes'⟩

/-- Every step of the run from `s` satisfies `P` on the state before it. -/
def Along (P : AutonomousService F → Input F → Prop) (s : AutonomousService F) :
    List ((EnvPtr → EnvironmentPayload F) × Input F) → Prop
  | [] => True
  | (deref, i) :: rest => P s i ∧ Along P (s.step deref i).1 rest

theorem run_inBounds_iff_of_bounded {s : AutonomousService F} (hs : s.Bounded)
    (inputs : List ((EnvPtr → EnvironmentPayload F) × Input F)) :
    AllInBounds (s.run inputs).2 ↔ s.Along (fun s i => ¬ s.PassesLastSlot i) inputs := by
  induction inputs generalizing s with
  | nil => simp [run, Along]
  | cons input rest ih =>
      obtain ⟨deref, i⟩ := input
      obtain ⟨hiff, hnext⟩ := step_inBounds_iff deref hs i
      simp only [run, Along, allInBounds_append, hiff]
      exact and_congr_right fun hpass => ih (hnext hpass)

/-- **Array safety over whole runs**: all accesses of a run are in bounds exactly when no sample
    reaches the eighth node of a route of more than eight. -/
theorem run_inBounds_iff (inputs : List ((EnvPtr → EnvironmentPayload F) × Input F)) :
    AllInBounds ((init : AutonomousService F).run inputs).2 ↔
      (init : AutonomousService F).Along (fun s i => ¬ s.PassesLastSlot i) inputs :=
  run_inBounds_iff_of_bounded init_bounded inputs

/-! ## Routes that fit -/

theorem checkNode_cmd (deref : EnvPtr → EnvironmentPayload F) (s : AutonomousService F) (idx : Nat)
    (kin : KinematicsPayload F) : (s.checkNode deref idx kin).1.cmd = s.cmd := by
  unfold checkNode
  split_ifs
  · obtain ⟨status, heq, -⟩ := s.recordStats_frame kin.positionM
    have hadvance : ∀ s : AutonomousService F, (s.advanceNode deref).1.cmd = s.cmd := by
      intro s
      unfold advanceNode
      dsimp only
      split_ifs <;> rfl
    exact (hadvance _).trans (by rw [heq])
  · rfl

/-- The command in force after a step is the one before it, unless the step delivers another. -/
theorem step_cmd (deref : EnvPtr → EnvironmentPayload F) (s : AutonomousService F) (i : Input F) :
    (s.step deref i).1.cmd = s.cmd ∨ i = .autoDriveCommand (s.step deref i).1.cmd := by
  cases i with
  | autoDriveCommand cmd => exact Or.inr rfl
  | internalEnvData env => exact Or.inl (onInternalEnvData_mission deref s env).cmd
  | powerData power => exact Or.inl rfl
  | physicsTick => exact Or.inl rfl
  | kinematicsData kin replies =>
      refine Or.inl ?_
      cases hidle : s.idle with
      | true => simp [step, onKinematicsData, hidle, rememberPosition]
      | false =>
          simp only [step, onKinematicsData_eq deref s kin replies hidle]
          exact (checkNode_cmd ..).trans (answered_mission deref s kin replies).cmd

/-- A run whose commands have at most eight nodes never passes the last slot. -/
theorem along_of_numNodes_le {s : AutonomousService F} (hs : s.cmd.numNodes ≤ 8)
    (inputs : List ((EnvPtr → EnvironmentPayload F) × Input F))
    (hcmds : ∀ deref cmd, (deref, Input.autoDriveCommand cmd) ∈ inputs → cmd.numNodes ≤ 8) :
    s.Along (fun s i => ¬ s.PassesLastSlot i) inputs := by
  induction inputs generalizing s with
  | nil => trivial
  | cons input rest ih =>
      obtain ⟨deref, i⟩ := input
      refine ⟨fun hpass => ?_, ih ?_ fun d cmd h => hcmds d cmd (List.mem_cons_of_mem _ h)⟩
      · cases i with
        | kinematicsData kin replies => exact absurd hs (not_le.2 hpass.2.2.1)
        | _ => exact hpass
      · rcases step_cmd deref s i with h | h
        · rw [h]
          exact hs
        · exact hcmds deref _ (h ▸ List.mem_cons_self)

/-- **Commands of at most eight nodes are safe**, whatever else arrives. -/
theorem run_inBounds_of_numNodes_le (inputs : List ((EnvPtr → EnvironmentPayload F) × Input F))
    (hcmds : ∀ deref cmd, (deref, Input.autoDriveCommand cmd) ∈ inputs → cmd.numNodes ≤ 8) :
    AllInBounds ((init : AutonomousService F).run inputs).2 :=
  (run_inBounds_iff_of_bounded init_bounded inputs).2
    (along_of_numNodes_le (Nat.zero_le 8) inputs hcmds)

/-! ## A route of nine nodes -/

/-- A datagram's worth of input: nine nodes at the origin, then a vehicle that stays there. -/
def nineNodes : List ((EnvPtr → EnvironmentPayload ℚ) × Input ℚ) :=
  (fun _ => default, .autoDriveCommand { (default : AutoDriveCommandPayload ℚ) with numNodes := 9 })
    :: List.replicate 8 (fun _ => default, .kinematicsData ⟨0, 0, 0, 0⟩ [])

/-- Reaching the eighth of nine nodes reads `route[8]`. -/
theorem nineNodes_overrun :
    ¬ ∀ inputs, AllInBounds ((init : AutonomousService ℚ).run inputs).2 := by
  intro h
  have hmem : Effect.access (.route 8) ∈ ((init : AutonomousService ℚ).run nineNodes).2 := by
    decide +kernel
  exact absurd (h nineNodes _ hmem) (by decide)

end AutonomousService

end ReflectPytest
