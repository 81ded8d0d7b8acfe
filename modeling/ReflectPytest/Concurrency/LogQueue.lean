import ReflectPytest.Services.Log
import Mathlib.Data.List.Infix
import Mathlib.Logic.Function.Basic

set_option autoImplicit false

/-! # The log queue under concurrency

Any number of threads call `log` while the worker swaps out batches and publishes them and the
destructor stops it. Every function is cut where another thread can come between: at the mutex, at
the condition variable, and at every payload of a batch. A wait may end at any time, notified or
not.

`reachable_accounts` says that the payloads published, the rest of the batch and the queue are
together all payloads pushed, in order, and that the worker does not exit before it has published
everything pushed before the stop. -/

namespace ReflectPytest

namespace LogService

/-! ## The threads -/

/-- Where a thread is in `log`. -/
inductive CallPhase (α : Type) where
  | outside
  | locking (p : α)
  | pushing (p : α)
  | unlocking
  | notifying
  deriving DecidableEq

/-- Where the worker thread is in `worker_loop`. `current` is the payload taken from the front of
    `to_process` and not published yet. -/
inductive WorkerPhase (α : Type) where
  | created
  | locking
  | testing
  | waiting
  | leaving
  | swapping
  | exiting
  | processing (current : Option α) (toProcess : List α)
  | exited
  deriving DecidableEq

/-- Where the destroying thread is in `~LogService`. -/
inductive DestructorPhase where
  | alive
  | locking
  | stopping
  | unlocking
  | notifying
  | joining
  | joined
  deriving DecidableEq

/-- Who can own the mutex. -/
inductive Owner (T : Type) where
  | caller (t : T)
  | worker
  | destructor
  deriving DecidableEq

/-- The service with its threads, and what has happened so far: the payloads pushed in the order
    their calls held the mutex, those pushed before `running_` was cleared (`none` until then), and
    the payloads published. -/
structure Threads (T α : Type) where
  service : LogService α
  owner : Option (Owner T)
  call : T → CallPhase α
  worker : WorkerPhase α
  destructor : DestructorPhase
  pushed : List α
  pushedBeforeStop : Option (List α)
  published : List α

/-- What a thread can do next. -/
inductive Action (T α : Type) where
  /-- Start a call of `log`. -/
  | log (t : T) (p : α)
  /-- Go on with it. -/
  | caller (t : T)
  | worker
  /-- `cv_.wait` returns to its test. -/
  | wakeUp
  | destructor

variable {T α : Type}

/-- The part of the worker's batch that is not published. -/
def WorkerPhase.batch : WorkerPhase α → List α
  | .processing current toProcess => current.toList ++ toProcess
  | _ => []

/-- All threads before their first step. -/
def Threads.init : Threads T α :=
  { service := .init, owner := none, call := fun _ => .outside, worker := .created
    destructor := .alive, pushed := [], pushedBeforeStop := none, published := [] }

variable [DecidableEq T]

/-- The next step of a thread inside `log`. -/
def stepCaller (s : Threads T α) (t : T) : Option (Threads T α) :=
  match s.call t with
  | .outside => none
  | .locking p =>
      if s.owner.isNone then
        some { s with owner := some (.caller t), call := Function.update s.call t (.pushing p) }
      else none
  | .pushing p =>
      some { s with
        service := s.service.push p
        call := Function.update s.call t .unlocking
        pushed := s.pushed ++ [p] }
  | .unlocking => some { s with owner := none, call := Function.update s.call t .notifying }
  | .notifying => some { s with call := Function.update s.call t .outside }

/-- The next step of the worker. -/
def stepWorker (s : Threads T α) : Option (Threads T α) :=
  match s.worker with
  | .created => if s.destructor = .alive then some { s with worker := .locking } else none
  | .locking =>
      if s.owner.isNone then some { s with owner := some .worker, worker := .testing } else none
  | .testing =>
      -- `cv_.wait` releases the mutex while its predicate is false.
      if s.service.wakes then some { s with worker := .leaving }
      else some { s with owner := none, worker := .waiting }
  | .waiting => none
  | .leaving => some { s with worker := if s.service.exits then .exiting else .swapping }
  | .swapping =>
      some { s with
        service := s.service.swap
        owner := none
        worker := .processing none s.service.queue }
  | .exiting => some { s with owner := none, worker := .exited }
  | .processing (some p) toProcess =>
      some { s with published := s.published ++ [p], worker := .processing none toProcess }
  | .processing none (p :: toProcess) => some { s with worker := .processing (some p) toProcess }
  | .processing none [] => some { s with worker := .locking }
  | .exited => none

/-- The next step of the destructor. A thread that was never started is not joined. -/
def stepDestructor (s : Threads T α) : Option (Threads T α) :=
  match s.destructor with
  | .alive => some { s with destructor := .locking }
  | .locking =>
      if s.owner.isNone then some { s with owner := some .destructor, destructor := .stopping }
      else none
  | .stopping =>
      some { s with
        service := s.service.stop
        destructor := .unlocking
        pushedBeforeStop := some s.pushed }
  | .unlocking => some { s with owner := none, destructor := .notifying }
  | .notifying => some { s with destructor := .joining }
  | .joining =>
      match s.worker with
      | .exited | .created => some { s with destructor := .joined }
      | _ => none
  | .joined => none

/-- One step of one thread. -/
def step (s : Threads T α) : Action T α → Option (Threads T α)
  | .log t p =>
      match s.call t with
      | .outside => some { s with call := Function.update s.call t (.locking p) }
      | _ => none
  | .caller t => stepCaller s t
  | .worker => stepWorker s
  | .wakeUp =>
      match s.worker with
      | .waiting => some { s with worker := .locking }
      | _ => none
  | .destructor => stepDestructor s

/-- Steps of the threads in some order, each where it can happen. -/
def run (s : Threads T α) : List (Action T α) → Option (Threads T α)
  | [] => some s
  | a :: rest => (step s a).bind fun s' => run s' rest

/-- What some interleaving reaches. -/
def Reachable (s : Threads T α) : Prop := ∃ actions, run .init actions = some s

/-- **Run lemma**: what holds at the start and is kept by every step holds in every reachable
    state. -/
theorem Reachable.invariant {I : Threads T α → Prop} {s : Threads T α} (hs : Reachable s)
    (hinit : I .init) (hstep : ∀ {s s' a}, I s → step s a = some s' → I s') : I s := by
  obtain ⟨actions, hrun⟩ := hs
  revert hinit hrun
  generalize Threads.init = s₀
  induction actions generalizing s₀ with
  | nil =>
      intro hinit hrun
      exact Option.some.inj hrun ▸ hinit
  | cons a rest ih =>
      intro hinit hrun
      obtain ⟨s₁, hfirst, hrest⟩ := Option.bind_eq_some_iff.1 hrun
      exact ih s₁ (hstep hinit hfirst) hrest

/-! ## Mutual exclusion -/

/-- The thread is between a lock and an unlock of the mutex. -/
def inside (s : Threads T α) : Owner T → Bool
  | .caller t => match s.call t with
    | .pushing _ | .unlocking => true
    | _ => false
  | .worker => match s.worker with
    | .testing | .leaving | .swapping | .exiting => true
    | _ => false
  | .destructor => match s.destructor with
    | .stopping | .unlocking => true
    | _ => false

/-- What a step of `o` can do to the mutex: take it while it is free, release it from inside, or
    leave it alone without entering. -/
structure LockStep (o : Owner T) (s s' : Threads T α) : Prop where
  others : ∀ o', o' ≠ o → inside s' o' = inside s o'
  own : s'.owner = s.owner ∧ (inside s' o = true → inside s o = true) ∨
    s.owner = none ∧ s'.owner = some o ∨
    inside s o = true ∧ s'.owner = none ∧ inside s' o = false

theorem stepCaller_lock {s s' : Threads T α} {t : T} (hstep : stepCaller s t = some s') :
    LockStep (.caller t) s s' := by
  unfold stepCaller at hstep
  have hothers : ∀ (phase : CallPhase α) o', o' ≠ Owner.caller t →
      inside { s with call := Function.update s.call t phase } o' = inside s o' := by
    rintro phase (t' | _ | _) h
    · have ht' : t' ≠ t := fun he => h (he ▸ rfl)
      simp only [inside, Function.update_of_ne ht']
    · rfl
    · rfl
  cases hcall : s.call t with
  | outside =>
      rw [hcall] at hstep
      exact nomatch hstep
  | locking p =>
      rw [hcall] at hstep
      obtain ⟨hfree, hs'⟩ := Option.ite_none_right_eq_some.1 hstep
      obtain rfl := Option.some.inj hs'
      exact ⟨hothers _, .inr (.inl ⟨Option.isNone_iff_eq_none.1 hfree, rfl⟩)⟩
  | pushing p =>
      rw [hcall] at hstep
      obtain rfl := Option.some.inj hstep
      exact ⟨hothers _, .inl ⟨rfl, fun _ => by simp [inside, hcall]⟩⟩
  | unlocking =>
      rw [hcall] at hstep
      obtain rfl := Option.some.inj hstep
      exact ⟨hothers _, .inr (.inr ⟨by simp [inside, hcall], rfl, by simp [inside]⟩)⟩
  | notifying =>
      rw [hcall] at hstep
      obtain rfl := Option.some.inj hstep
      exact ⟨hothers _, .inl ⟨rfl, fun h => by simp [inside] at h⟩⟩

omit [DecidableEq T] in
/-- A step that only the worker's phase and the mutex see. -/
theorem lockStep_worker {s s' : Threads T α} (hcall : s'.call = s.call)
    (hdestructor : s'.destructor = s.destructor)
    (hown : s'.owner = s.owner ∧ (inside s' .worker = true → inside s .worker = true) ∨
      s.owner = none ∧ s'.owner = some .worker ∨
      inside s .worker = true ∧ s'.owner = none ∧ inside s' .worker = false) :
    LockStep .worker s s' := by
  refine ⟨?_, hown⟩
  rintro (t | _ | _) h
  · simp only [inside, hcall]
  · exact absurd rfl h
  · simp only [inside, hdestructor]

omit [DecidableEq T] in
theorem stepWorker_lock {s s' : Threads T α} (hstep : stepWorker s = some s') :
    LockStep .worker s s' := by
  unfold stepWorker at hstep
  split at hstep <;> (try split at hstep) <;>
    first
    | (obtain rfl := Option.some.inj hstep
       refine lockStep_worker rfl rfl ?_
       simp_all [inside])
    | cases hstep

omit [DecidableEq T] in
theorem stepDestructor_lock {s s' : Threads T α} (hstep : stepDestructor s = some s') :
    LockStep .destructor s s' := by
  have hothers : ∀ s' : Threads T α, s'.call = s.call → s'.worker = s.worker →
      ∀ o', o' ≠ Owner.destructor → inside s' o' = inside s o' := by
    rintro s' hcall hworker (t | _ | _) h
    · simp only [inside, hcall]
    · simp only [inside, hworker]
    · exact absurd rfl h
  unfold stepDestructor at hstep
  split at hstep <;> (try split at hstep) <;>
    first
    | (obtain rfl := Option.some.inj hstep
       refine ⟨hothers _ rfl rfl, ?_⟩
       simp_all [inside])
    | cases hstep

theorem step_lock {s s' : Threads T α} {a : Action T α} (hstep : step s a = some s') :
    ∃ o, LockStep o s s' := by
  cases a with
  | log t p =>
      refine ⟨.caller t, ?_⟩
      simp only [step] at hstep
      split at hstep
      · obtain rfl := Option.some.inj hstep
        refine ⟨?_, ?_⟩
        · rintro (t' | _ | _) h <;> simp_all [inside]
        · simp_all [inside]
      · exact nomatch hstep
  | caller t => exact ⟨_, stepCaller_lock hstep⟩
  | worker => exact ⟨_, stepWorker_lock hstep⟩
  | wakeUp =>
      refine ⟨.worker, ?_⟩
      simp only [step] at hstep
      split at hstep
      · obtain rfl := Option.some.inj hstep
        exact lockStep_worker rfl rfl (.inl ⟨rfl, by simp [inside]⟩)
      · exact nomatch hstep
  | destructor => exact ⟨_, stepDestructor_lock hstep⟩

/-- Only its owner is inside the mutex. -/
def Exclusive (s : Threads T α) : Prop := ∀ o, inside s o = true → s.owner = some o

omit [DecidableEq T] in
theorem LockStep.exclusive {o : Owner T} {s s' : Threads T α} (hlock : LockStep o s s')
    (hs : Exclusive s) : Exclusive s' := by
  intro o' ho'
  by_cases h : o' = o
  · subst h
    rcases hlock.own with ⟨howner, henter⟩ | ⟨-, howner⟩ | ⟨-, -, hleft⟩
    · rw [howner]
      exact hs o' (henter ho')
    · exact howner
    · exact nomatch ho'.symm.trans hleft
  · rw [hlock.others o' h] at ho'
    have hother := hs o' ho'
    -- `o'` owns the mutex, so `o` can neither take nor release it.
    rcases hlock.own with ⟨howner, -⟩ | ⟨hfree, -⟩ | ⟨hinside, -, -⟩
    · rw [howner]
      exact hother
    · exact nomatch hfree.symm.trans hother
    · exact absurd (Option.some.inj (hother.symm.trans (hs o hinside))) h

/-! ## Accounting -/

/-- `running_` has not been cleared yet. -/
def DestructorPhase.beforeStop : DestructorPhase → Bool
  | .alive | .locking | .stopping => true
  | _ => false

/-- The worker has left its loop. -/
def WorkerPhase.left : WorkerPhase α → Bool
  | .exiting | .exited => true
  | _ => false

/-- What holds in every reachable state. -/
structure Accounts (s : Threads T α) : Prop where
  /-- Nothing is lost, duplicated or reordered. -/
  total : s.published ++ s.worker.batch ++ s.service.queue = s.pushed
  running : s.service.running = s.destructor.beforeStop
  stopped : s.pushedBeforeStop = none ↔ s.service.running = true
  before : ∀ before, s.pushedBeforeStop = some before → before <+: s.pushed
  left : s.worker.left = true →
    ∃ before, s.pushedBeforeStop = some before ∧ before <+: s.published

omit [DecidableEq T] in
theorem accounts_init : Accounts (Threads.init : Threads T α) where
  total := rfl
  running := rfl
  stopped := by simp [Threads.init, LogService.init]
  before := by simp [Threads.init]
  left := by simp [Threads.init, WorkerPhase.left]

/-- A step of a call only ever adds to the end of the queue. -/
theorem stepCaller_accounts {s s' : Threads T α} {t : T} (hs : Accounts s)
    (hstep : stepCaller s t = some s') : Accounts s' := by
  unfold stepCaller at hstep
  split at hstep
  · exact nomatch hstep
  · obtain ⟨-, hs'⟩ := Option.ite_none_right_eq_some.1 hstep
    obtain rfl := Option.some.inj hs'
    exact ⟨hs.total, hs.running, hs.stopped, hs.before, hs.left⟩
  · next p _ =>
      -- Queue and history grow by the same payload.
      obtain rfl := Option.some.inj hstep
      refine ⟨?_, hs.running, hs.stopped, fun before hb => ?_, hs.left⟩
      · show s.published ++ s.worker.batch ++ (s.service.queue ++ [p]) = s.pushed ++ [p]
        rw [← List.append_assoc, hs.total]
      · exact (hs.before before hb).trans (List.prefix_append _ _)
  · obtain rfl := Option.some.inj hstep
    exact ⟨hs.total, hs.running, hs.stopped, hs.before, hs.left⟩
  · obtain rfl := Option.some.inj hstep
    exact ⟨hs.total, hs.running, hs.stopped, hs.before, hs.left⟩

omit [DecidableEq T] in
/-- The worker moves on with the same batch. It may only leave its loop where `exits` lets it. -/
theorem Accounts.moveWorker {s : Threads T α} (hs : Accounts s) (owner : Option (Owner T))
    {worker : WorkerPhase α} (hbatch : worker.batch = s.worker.batch)
    (hleft : worker.left = true →
      s.worker.left = true ∨ s.service.exits = true ∧ s.worker.batch = []) :
    Accounts { s with owner := owner, worker := worker } := by
  refine ⟨?_, hs.running, hs.stopped, hs.before, fun hw => ?_⟩
  · rw [hbatch]
    exact hs.total
  · rcases hleft hw with hw | ⟨hexits, hempty⟩
    · exact hs.left hw
    · -- Nothing is queued and nothing is in the batch, so everything pushed is published.
      obtain ⟨hstopped, hqueue⟩ := exits_iff.1 hexits
      have hall : s.published = s.pushed := by
        have htotal := hs.total
        rwa [hempty, hqueue, List.append_nil, List.append_nil] at htotal
      cases hbefore : s.pushedBeforeStop with
      | none => exact nomatch hstopped.symm.trans (hs.stopped.1 hbefore)
      | some before => exact ⟨before, rfl, hall ▸ hs.before before hbefore⟩

omit [DecidableEq T] in
/-- A step of the worker moves payloads from the queue to the batch and from there to the bus. -/
theorem stepWorker_accounts {s s' : Threads T α} (hs : Accounts s)
    (hstep : stepWorker s = some s') : Accounts s' := by
  unfold stepWorker at hstep
  cases hworker : s.worker with
  | created =>
      rw [hworker] at hstep
      obtain ⟨-, hs'⟩ := Option.ite_none_right_eq_some.1 hstep
      obtain rfl := Option.some.inj hs'
      exact hs.moveWorker s.owner (by rw [hworker]; rfl) nofun
  | locking =>
      rw [hworker] at hstep
      obtain ⟨-, hs'⟩ := Option.ite_none_right_eq_some.1 hstep
      obtain rfl := Option.some.inj hs'
      exact hs.moveWorker _ (by rw [hworker]; rfl) nofun
  | testing =>
      simp only [hworker] at hstep
      split at hstep
      · obtain rfl := Option.some.inj hstep
        exact hs.moveWorker s.owner (by rw [hworker]; rfl) nofun
      · obtain rfl := Option.some.inj hstep
        exact hs.moveWorker none (by rw [hworker]; rfl) nofun
  | waiting =>
      rw [hworker] at hstep
      exact nomatch hstep
  | leaving =>
      rw [hworker] at hstep
      obtain rfl := Option.some.inj hstep
      have hempty : s.worker.batch = [] := by rw [hworker]; rfl
      split
      · next hexits => exact hs.moveWorker s.owner hempty.symm fun _ => .inr ⟨hexits, hempty⟩
      · exact hs.moveWorker s.owner hempty.symm nofun
  | swapping =>
      -- The queue becomes the batch, which was empty.
      rw [hworker] at hstep
      obtain rfl := Option.some.inj hstep
      refine ⟨?_, hs.running, hs.stopped, hs.before, nofun⟩
      have htotal := hs.total
      rw [hworker] at htotal
      show s.published ++ s.service.queue ++ [] = s.pushed
      simpa [WorkerPhase.batch] using htotal
  | exiting =>
      rw [hworker] at hstep
      obtain rfl := Option.some.inj hstep
      exact hs.moveWorker none (by rw [hworker]; rfl) fun _ => .inl (by rw [hworker]; rfl)
  | processing current toProcess =>
      have htotal := hs.total
      rw [hworker] at hstep htotal
      cases current with
      | some p =>
          obtain rfl := Option.some.inj hstep
          refine ⟨?_, hs.running, hs.stopped, hs.before, nofun⟩
          show s.published ++ [p] ++ toProcess ++ s.service.queue = s.pushed
          simpa [WorkerPhase.batch] using htotal
      | none =>
          cases toProcess with
          | nil =>
              obtain rfl := Option.some.inj hstep
              exact hs.moveWorker s.owner (by rw [hworker]; rfl) nofun
          | cons p toProcess =>
              obtain rfl := Option.some.inj hstep
              exact hs.moveWorker s.owner (by rw [hworker]; rfl) nofun
  | exited =>
      rw [hworker] at hstep
      exact nomatch hstep

omit [DecidableEq T] in
/-- The destructor moves on and leaves `running_` as it is. -/
theorem Accounts.moveDestructor {s : Threads T α} (hs : Accounts s) (owner : Option (Owner T))
    {destructor : DestructorPhase} (hphase : destructor.beforeStop = s.destructor.beforeStop) :
    Accounts { s with owner := owner, destructor := destructor } :=
  ⟨hs.total, hs.running.trans hphase.symm, hs.stopped, hs.before, hs.left⟩

omit [DecidableEq T] in
/-- The destructor stops the worker once. -/
theorem stepDestructor_accounts {s s' : Threads T α} (hs : Accounts s)
    (hstep : stepDestructor s = some s') : Accounts s' := by
  have hrunning := hs.running
  unfold stepDestructor at hstep
  cases hphase : s.destructor with
  | stopping =>
      rw [hphase] at hstep hrunning
      obtain rfl := Option.some.inj hstep
      refine ⟨hs.total, rfl, by simp [stop], fun before hb => ?_, fun hw => ?_⟩
      · obtain rfl := Option.some.inj hb
        exact List.prefix_rfl
      · obtain ⟨before, hb, -⟩ := hs.left hw
        -- The worker cannot have left before the stop.
        exact nomatch hb.symm.trans (hs.stopped.2 hrunning)
  | alive =>
      rw [hphase] at hstep
      obtain rfl := Option.some.inj hstep
      exact hs.moveDestructor s.owner (by rw [hphase]; rfl)
  | locking =>
      rw [hphase] at hstep
      obtain ⟨-, hs'⟩ := Option.ite_none_right_eq_some.1 hstep
      obtain rfl := Option.some.inj hs'
      exact hs.moveDestructor _ (by rw [hphase]; rfl)
  | unlocking =>
      rw [hphase] at hstep
      obtain rfl := Option.some.inj hstep
      exact hs.moveDestructor none (by rw [hphase]; rfl)
  | notifying =>
      rw [hphase] at hstep
      obtain rfl := Option.some.inj hstep
      exact hs.moveDestructor s.owner (by rw [hphase]; rfl)
  | joining =>
      simp only [hphase] at hstep
      split at hstep
      · obtain rfl := Option.some.inj hstep
        exact hs.moveDestructor s.owner (by rw [hphase]; rfl)
      · obtain rfl := Option.some.inj hstep
        exact hs.moveDestructor s.owner (by rw [hphase]; rfl)
      · exact nomatch hstep
  | joined =>
      rw [hphase] at hstep
      exact nomatch hstep

/-- One step of any thread. -/
theorem step_accounts {s s' : Threads T α} {a : Action T α} (hs : Accounts s)
    (hstep : step s a = some s') : Accounts s' := by
  cases a with
  | log t p =>
      simp only [step] at hstep
      split at hstep
      · obtain rfl := Option.some.inj hstep
        exact ⟨hs.total, hs.running, hs.stopped, hs.before, hs.left⟩
      · exact nomatch hstep
  | caller t => exact stepCaller_accounts hs hstep
  | worker => exact stepWorker_accounts hs hstep
  | wakeUp =>
      simp only [step] at hstep
      split at hstep
      · next hworker =>
          obtain rfl := Option.some.inj hstep
          exact hs.moveWorker s.owner (by rw [hworker]; rfl) nofun
      · exact nomatch hstep
  | destructor => exact stepDestructor_accounts hs hstep

/-- The mutex excludes: whoever is inside it owns it. So the order of the pushes is the order in
    which the calls hold it. -/
theorem reachable_exclusive {s : Threads T α} (hs : Reachable s) : Exclusive s := by
  refine hs.invariant ?_ fun hs hstep => ?_
  · rintro (t | _ | _) ho <;> exact nomatch ho
  · obtain ⟨o, hlock⟩ := step_lock hstep
    exact hlock.exclusive hs

/-- **No log is lost, duplicated or reordered.** What is published, what the worker still has of its
    batch and what is queued are together what has been pushed, in the order the calls held the
    mutex; and a worker that has exited has published everything pushed before `running_` was
    cleared. -/
theorem reachable_accounts {s : Threads T α} (hs : Reachable s) :
    s.published ++ s.worker.batch ++ s.service.queue = s.pushed ∧
      (s.worker = .exited →
        ∃ before, s.pushedBeforeStop = some before ∧ before <+: s.published) := by
  have haccounts := hs.invariant accounts_init step_accounts
  refine ⟨haccounts.total, fun hexited => haccounts.left ?_⟩
  rw [hexited]
  rfl

/-- A payload is pushed and taken by the worker, a second producer pushes another one, the
    destructor stops the worker, and the worker publishes both payloads before it exits. -/
def stopDuringBatch : List (Action Bool Nat) :=
  [.worker, .log true 7, .log false 8] ++ List.replicate 4 (.caller true) ++
    List.replicate 4 .worker ++ List.replicate 4 (.caller false) ++ List.replicate 5 .destructor ++
    List.replicate 14 .worker

theorem stopDuringBatch_accounts : ∃ s : Threads Bool Nat, run .init stopDuringBatch = some s ∧
    s.worker = .exited ∧ s.published = [7, 8] ∧
    s.published ++ s.worker.batch ++ s.service.queue = s.pushed ∧
    ∃ before, s.pushedBeforeStop = some before ∧ before <+: s.published := by
  have hreach : ∀ s, run .init stopDuringBatch = some s → Reachable s := fun s h => ⟨_, h⟩
  have haccounts := reachable_accounts (hreach _ rfl)
  exact ⟨_, rfl, rfl, rfl, haccounts.1, haccounts.2 rfl⟩

end LogService

end ReflectPytest
