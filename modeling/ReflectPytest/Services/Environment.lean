import ReflectPytest.Messages

set_option autoImplicit false

/-! # EnvironmentService

The spatial cache of regions. A region keeps the cache position it was first stored at, which is
what an `EnvPtr` denotes; an update of a known region overwrites it there. -/

namespace ReflectPytest

open FloatOps

variable {F : Type} [FloatOps F]

/-- Inclusive containment in both coordinates. -/
def BoundingBox2D.contains (b : BoundingBox2D F) (x y : F) : Bool :=
  le b.minPt.x x && le x b.maxPt.x && le b.minPt.y y && le y b.maxPt.y

/-- `last_request_time_` is in nanoseconds since the epoch of the steady clock. -/
structure EnvironmentService (F : Type) where
  cache : List (EnvironmentPayload F)
  lastRequestTime : Nat

namespace EnvironmentService

/-- The state of a freshly constructed service. -/
def init : EnvironmentService F := ⟨[], 0⟩

/-- The region a pointer denotes at the moment. -/
def deref (s : EnvironmentService F) (p : EnvPtr) : EnvironmentPayload F := s.cache.getD p default

/-- `on_message(EnvironmentPayload)`: update in place or append, then acknowledge. -/
def onEnvironmentData (s : EnvironmentService F) (env : EnvironmentPayload F) :
    EnvironmentService F × EnvironmentAckPayload :=
  (match s.cache.findIdx? (fun e => decide (e.regionId = env.regionId)) with
    | some i => { s with cache := s.cache.set i env }
    | none => { s with cache := s.cache ++ [env] },
   ⟨env.regionId⟩)

/-- The first cached region that contains the point. -/
def lookup (s : EnvironmentService F) (req : InternalEnvRequestPayload F) : Option EnvPtr :=
  s.cache.findIdx? fun env => env.bounds.contains req.x req.y

/-- `now - last_request_time_ > 500 ms`. -/
def mayRequest (s : EnvironmentService F) (now : Nat) : Bool :=
  decide (s.lastRequestTime + 500000000 < now)

/-- `on_message(InternalEnvRequestPayload)`: answer from the cache, or ask outside. -/
def onInternalEnvRequest (s : EnvironmentService F) (now : Nat)
    (req : InternalEnvRequestPayload F) : EnvironmentService F × List (Msg F) :=
  match s.lookup req with
  | some p => (s, [.internalEnvData ⟨p⟩])
  | none =>
      if s.mayRequest now then
        ({ s with lastRequestTime := now }, [.environmentRequest ⟨⟨req.x, req.y⟩⟩])
      else (s, [])

omit [FloatOps F] in
/-- Regions are never dropped. -/
theorem onEnvironmentData_length (s : EnvironmentService F) (env : EnvironmentPayload F) :
    s.cache.length ≤ (s.onEnvironmentData env).1.cache.length := by
  unfold onEnvironmentData
  split <;> simp

/-- The answer to a request points into the cache. -/
theorem lookup_lt {s : EnvironmentService F} {req : InternalEnvRequestPayload F} {p : EnvPtr}
    (h : s.lookup req = some p) : p < s.cache.length :=
  (List.findIdx?_eq_some_iff_getElem.1 h).1

end EnvironmentService

end ReflectPytest
