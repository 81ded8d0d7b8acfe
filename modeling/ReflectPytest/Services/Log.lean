import Mathlib.Data.List.Basic

set_option autoImplicit false

/-! # LogService

The queue of the asynchronous log sink and the flag its destructor clears: the fields `mu_`
protects. The payloads are arbitrary. -/

namespace ReflectPytest

structure LogService (α : Type) where
  queue : List α
  running : Bool
  deriving DecidableEq

namespace LogService

variable {α : Type}

/-- The state of a freshly constructed service. -/
def init : LogService α := ⟨[], true⟩

/-- `queue_.push(p)`. -/
def push (s : LogService α) (p : α) : LogService α := { s with queue := s.queue ++ [p] }

/-- The predicate of `cv_.wait`. -/
def wakes (s : LogService α) : Bool := !s.queue.isEmpty || !s.running

/-- The exit test of `worker_loop`. -/
def exits (s : LogService α) : Bool := !s.running && s.queue.isEmpty

/-- `std::swap(to_process, queue_)`: what stays behind is the empty `to_process`. -/
def swap (s : LogService α) : LogService α := { s with queue := [] }

/-- `running_ = false`. -/
def stop (s : LogService α) : LogService α := { s with running := false }

theorem exits_iff {s : LogService α} : s.exits = true ↔ s.running = false ∧ s.queue = [] := by
  simp [exits]

end LogService

end ReflectPytest
