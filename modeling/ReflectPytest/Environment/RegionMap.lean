import ReflectPytest.App
import ReflectPytest.Library.OrderedMap
import ReflectPytest.Library.Throttle

set_option autoImplicit false

/-! # The region cache as a map

What `EnvironmentService` is for: a map from region ids to the last payload received, whose entries
have the priority of their first arrival, and a limiter on the requests for what it does not know.
`run_refines` says that the cache is this map in every run. -/

namespace ReflectPytest

open FloatOps

variable {F : Type} [FloatOps F]

namespace EnvironmentService

/-! ## The service on its own -/

inductive Input (F : Type) where
  | environmentData (env : EnvironmentPayload F)
  | internalEnvRequest (req : InternalEnvRequestPayload F)

/-- Deliver one message. -/
def step (s : EnvironmentService F) (now : Nat) : Input F → EnvironmentService F × List (Msg F)
  | .environmentData env =>
      let (s, ack) := s.onEnvironmentData env
      (s, [.environmentAck ack])
  | .internalEnvRequest req => s.onInternalEnvRequest now req

/-- Deliver a history of messages; what is published is listed with its time. -/
def run (s : EnvironmentService F) :
    List (Nat × Input F) → EnvironmentService F × List (Nat × Msg F)
  | [] => (s, [])
  | (now, i) :: rest =>
      let (s, ms) := s.step now i
      let (s, log) := s.run rest
      (s, ms.map (now, ·) ++ log)

theorem run_append (s : EnvironmentService F) (pre rest : List (Nat × Input F)) :
    s.run (pre ++ rest) =
      (((s.run pre).1.run rest).1, (s.run pre).2 ++ ((s.run pre).1.run rest).2) := by
  induction pre generalizing s with
  | nil => rfl
  | cons i pre ih => simp only [List.cons_append, run, ih, List.append_assoc]

theorem run_concat (s : EnvironmentService F) (pre : List (Nat × Input F)) (now : Nat)
    (i : Input F) : s.run (pre ++ [(now, i)]) =
      (((s.run pre).1.step now i).1,
        (s.run pre).2 ++ ((s.run pre).1.step now i).2.map (now, ·)) := by
  rw [run_append]
  simp [run]

/-! ## The handlers of the application -/

/-- The application publishes what the handler says. -/
theorem answerRequest_eq (w : World F) (req : InternalEnvRequestPayload F) :
    App.answerRequest req w = (w, (w.environment.onInternalEnvRequest w.now req).2) := by
  unfold App.answerRequest onInternalEnvRequest
  rcases Option.eq_none_or_eq_some (w.environment.lookup req) with hnone | ⟨p, hp⟩
  · rw [hnone]
    dsimp only
    split <;> rfl
  · rw [hp]

/-- It sets the time of the request when the handler does. -/
theorem setRequestTime_eq (w : World F) (req : InternalEnvRequestPayload F) :
    (if App.missesEnvironment req w then (App.setRequestTime w.now w).environment
      else w.environment) = (w.environment.onInternalEnvRequest w.now req).1 := by
  unfold App.missesEnvironment onInternalEnvRequest
  rcases Option.eq_none_or_eq_some (w.environment.lookup req) with hnone | ⟨p, hp⟩
  · simp only [hnone, Option.isNone_none, Bool.true_and]
    split <;> rfl
  · simp [hp]

/-! ## What a history delivered and published -/

/-- The payloads received, in order. -/
def received (history : List (Nat × Input F)) : List (EnvironmentPayload F) :=
  history.filterMap fun
    | (_, .environmentData env) => some env
    | _ => none

/-- The times at which an `EnvironmentRequest` went out. -/
def requestTimes (log : List (Nat × Msg F)) : List Nat :=
  log.filterMap fun
    | (now, .environmentRequest _) => some now
    | _ => none

/-- The ids acknowledged, in order. -/
def acknowledged (log : List (Nat × Msg F)) : List Nat :=
  log.filterMap fun
    | (_, .environmentAck ack) => some ack.regionId
    | _ => none

/-- The region is the first one in the cache whose bounds contain the point. -/
structure FirstHit (s : EnvironmentService F) (req : InternalEnvRequestPayload F) (p : EnvPtr) :
    Prop where
  hit : ∃ env, s.cache[p]? = some env ∧ env.bounds.contains req.x req.y = true
  first : ∀ q env, q < p → s.cache[q]? = some env → env.bounds.contains req.x req.y = false

/-- No region in the cache contains the point. -/
def Misses (s : EnvironmentService F) (req : InternalEnvRequestPayload F) : Prop :=
  ∀ env ∈ s.cache, env.bounds.contains req.x req.y = false

theorem FirstHit.lookup {s : EnvironmentService F} {req : InternalEnvRequestPayload F} {p : EnvPtr}
    (h : s.FirstHit req p) : s.lookup req = some p := by
  obtain ⟨env, hat, hcontains⟩ := h.hit
  obtain ⟨hlt, rfl⟩ := List.getElem?_eq_some_iff.1 hat
  refine List.findIdx?_eq_some_iff_getElem.2 ⟨hlt, hcontains, fun q hq => ?_⟩
  rw [h.first q _ hq (List.getElem?_eq_getElem (hq.trans hlt))]
  exact Bool.false_ne_true

theorem misses_iff {s : EnvironmentService F} {req : InternalEnvRequestPayload F} :
    s.Misses req ↔ s.lookup req = none := List.findIdx?_eq_none_iff.symm

/-! ## Steps -/

/-- The cache is the map of what was received, and the requests are rate-limited. -/
structure Represents (s : EnvironmentService F) (history : List (Nat × Input F))
    (log : List (Nat × Msg F)) : Prop where
  cache : s.cache = (OrderedMap.ofList EnvironmentPayload.regionId (received history)).toList
  requests : Throttle.Admitted 500000000 0 s.lastRequestTime (requestTimes log)
  acks : acknowledged log = (received history).map EnvironmentPayload.regionId

omit [FloatOps F] in
theorem init_represents : (init : EnvironmentService F).Represents [] [] :=
  ⟨rfl, Throttle.Admitted.nil, rfl⟩

omit [FloatOps F] in
/-- Receiving a region is inserting it. -/
theorem onEnvironmentData_cache (s : EnvironmentService F) (env : EnvironmentPayload F) :
    (s.onEnvironmentData env).1 =
      { s with cache := OrderedMap.upsert EnvironmentPayload.regionId s.cache env } := by
  unfold onEnvironmentData OrderedMap.upsert
  cases s.cache.findIdx? fun e => decide (e.regionId = env.regionId) <;> rfl

/-- **Step lemma.** -/
theorem Represents.step {s : EnvironmentService F} {history : List (Nat × Input F)}
    {log : List (Nat × Msg F)} (h : s.Represents history log) (now : Nat) (i : Input F) :
    (s.step now i).1.Represents (history ++ [(now, i)]) (log ++ (s.step now i).2.map (now, ·)) := by
  cases i with
  | environmentData env =>
      have hreceived : received (history ++ [(now, .environmentData env)]) =
          received history ++ [env] := by simp [received]
      have hkeyed : (OrderedMap.ofList EnvironmentPayload.regionId (received history)).Keyed
          EnvironmentPayload.regionId := OrderedMap.keyed_ofList _
      refine ⟨?_, ?_, ?_⟩
      · rw [hreceived, OrderedMap.ofList_concat, ← OrderedMap.upsert_toList hkeyed, ← h.cache]
        simp only [EnvironmentService.step, onEnvironmentData_cache]
      · simpa [EnvironmentService.step, onEnvironmentData_cache, requestTimes] using h.requests
      · rw [hreceived, List.map_append, ← h.acks]
        simp [EnvironmentService.step, acknowledged, onEnvironmentData]
  | internalEnvRequest req =>
      have hreceived : received (history ++ [(now, .internalEnvRequest req)]) =
          received history := by simp [received]
      simp only [EnvironmentService.step, onInternalEnvRequest]
      split
      · refine ⟨hreceived ▸ h.cache, ?_, ?_⟩
        · simpa [requestTimes] using h.requests
        · rw [hreceived, ← h.acks]
          simp [acknowledged]
      · split
        · next hmay =>
            refine ⟨hreceived ▸ h.cache, ?_, ?_⟩
            · simpa [requestTimes] using h.requests.admit (of_decide_eq_true hmay)
            · rw [hreceived, ← h.acks]
              simp [acknowledged]
        · exact ⟨hreceived ▸ h.cache, by simpa using h.requests, by simpa [hreceived] using h.acks⟩

/-- **Run lemma.** -/
theorem run_represents (history : List (Nat × Input F)) :
    ((init : EnvironmentService F).run history).1.Represents history
      ((init : EnvironmentService F).run history).2 := by
  induction history using List.reverseRecOn with
  | nil => exact init_represents
  | append_singleton history i ih =>
      rw [run_concat]
      exact ih.step i.1 i.2

/-- What goes out for a request, once 500 ms have passed since the epoch of the clock. -/
theorem Represents.request {s : EnvironmentService F} {history : List (Nat × Input F)}
    {log : List (Nat × Msg F)} (h : s.Represents history log) {now : Nat} (hnow : 500000000 < now)
    (req : InternalEnvRequestPayload F) :
    (∀ p, s.FirstHit req p → (s.step now (.internalEnvRequest req)).2 = [.internalEnvData ⟨p⟩]) ∧
      (s.Misses req → (s.step now (.internalEnvRequest req)).2 =
        if ∀ t ∈ (requestTimes log).getLast?, t + 500000000 < now then
          [.environmentRequest ⟨⟨req.x, req.y⟩⟩] else []) := by
  constructor
  · intro p hp
    simp only [EnvironmentService.step, onInternalEnvRequest, hp.lookup]
  · intro hmiss
    have hallows := h.requests.allows_iff (show 0 + 500000000 < now by omega)
    simp only [EnvironmentService.step, onInternalEnvRequest, misses_iff.1 hmiss, mayRequest,
      decide_eq_true_eq, ← hallows]
    split <;> rfl

/-! ## Runs -/

/-- **The cache refines a map with first-arrival order.** For every history with a clock that never
    goes back and starts more than 500 ms after its epoch: one entry per region id, in the order of
    first arrival, each the last payload received for its id; a request is answered with the first
    region that contains the point, or passed on if it is the first or more than 500 ms after the
    last one passed on; all requests passed on are more than 500 ms apart; every payload is
    acknowledged once. -/
theorem run_refines (history : List (Nat × Input F))
    (hclock : (history.map Prod.fst).Pairwise (· ≤ ·))
    (hstart : ∀ t ∈ (history.map Prod.fst).head?, 500000000 < t) :
    let r := (init : EnvironmentService F).run history
    r.1.cache.map EnvironmentPayload.regionId =
        ((received history).map EnvironmentPayload.regionId).eraseDups ∧
      (∀ env ∈ r.1.cache,
        OrderedMap.latest EnvironmentPayload.regionId (received history) env.regionId = some env) ∧
      (∀ pre now req, pre ++ [(now, .internalEnvRequest req)] <+: history →
        let before := (init : EnvironmentService F).run pre
        (∀ p, before.1.FirstHit req p →
          (before.1.step now (.internalEnvRequest req)).2 = [.internalEnvData ⟨p⟩]) ∧
        (before.1.Misses req → (before.1.step now (.internalEnvRequest req)).2 =
          if ∀ t ∈ (requestTimes before.2).getLast?, t + 500000000 < now then
            [.environmentRequest ⟨⟨req.x, req.y⟩⟩] else [])) ∧
      (requestTimes r.2).Pairwise (fun t t' => t + 500000000 < t') ∧
      (∀ pre now env, pre ++ [(now, .environmentData env)] <+: history →
        (((init : EnvironmentService F).run pre).1.step now (.environmentData env)).2 =
          [.environmentAck ⟨env.regionId⟩]) ∧
      acknowledged r.2 = (received history).map EnvironmentPayload.regionId := by
  intro r
  have hr : r.1.Represents history r.2 := run_represents history
  have hkeyed : (OrderedMap.ofList EnvironmentPayload.regionId (received history)).Keyed
      EnvironmentPayload.regionId := OrderedMap.keyed_ofList _
  refine ⟨?_, ?_, ?_, hr.requests.spaced, fun pre now env _ => rfl, hr.acks⟩
  · rw [hr.cache, OrderedMap.map_key_toList hkeyed, OrderedMap.order_ofList]
  · intro env henv
    rw [hr.cache, OrderedMap.mem_toList hkeyed, OrderedMap.value_ofList] at henv
    exact henv
  · intro pre now req hpre
    refine (run_represents pre).request ?_ req
    -- No time of the history is before its first one.
    obtain ⟨rest, rfl⟩ := hpre
    cases pre with
    | nil => exact hstart now rfl
    | cons i pre =>
        have hfirst := hstart i.1 rfl
        refine hfirst.trans_le (List.rel_of_pairwise_cons hclock ?_)
        simp

/-! ## Two regions -/

/-- The region from `lo` to `hi` on the track. -/
def track (regionId : Nat) (lo hi : ℚ) : EnvironmentPayload ℚ :=
  { (default : EnvironmentPayload ℚ) with
    regionId := regionId
    bounds := ⟨⟨lo, -1⟩, ⟨hi, 1⟩⟩ }

/-- Region 2, then region 1, two misses 300 ms apart, and region 2 again. -/
def twoRegions : List (Nat × Input ℚ) :=
  [(600000000, .environmentData (track 2 0 10)), (700000000, .environmentData (track 1 5 20)),
    (800000000, .internalEnvRequest ⟨50, 0⟩), (1100000000, .internalEnvRequest ⟨60, 0⟩),
    (1200000000, .environmentData (track 2 0 100)), (1400000000, .internalEnvRequest ⟨50, 0⟩)]

theorem twoRegions_refined :
    let r := (init : EnvironmentService ℚ).run twoRegions
    r.1.cache.map EnvironmentPayload.regionId = [2, 1] ∧
      (((init : EnvironmentService ℚ).run (twoRegions.take 5)).1.step 1400000000
        (.internalEnvRequest ⟨50, 0⟩)).2 = [.internalEnvData ⟨0⟩] ∧
      requestTimes r.2 = [800000000] ∧ acknowledged r.2 = [2, 1, 2] := by
  obtain ⟨hids, -, hrequests, -, -, hacks⟩ := run_refines twoRegions (by decide) (by decide)
  refine ⟨hids, (hrequests (twoRegions.take 5) _ _ (List.prefix_refl _)).1 0 ⟨?_, ?_⟩, ?_, hacks⟩
  · exact ⟨track 2 0 100, by decide +kernel, by decide +kernel⟩
  · intro q env hq
    exact absurd hq (Nat.not_lt_zero q)
  · decide +kernel

end EnvironmentService

end ReflectPytest
