import ReflectPytest.Concurrency.AppThreads
import ReflectPytest.Library.Undisturbed

set_option autoImplicit false

/-! # Events one at a time are one interleaving

`App.run` handles every event to completion before the next one. The threads can do the same: the
only mutex that is not recursive is the motor's, and under it only `MotorStatus` is published, whose
subscribers take no mutex. So what is shown of all interleavings holds in particular after every
sequence of events. -/

namespace ReflectPytest

open SyncBus

variable {F : Type} [FloatOps F]

namespace App

/-- The one mutex that is not recursive belongs to `MotorService`. -/
theorem eq_motor_of_mutex {h : Service} {l : Mutex} (hlock : h.mutex = some l)
    (hrec : l.recursive = false) : h = .motor ∧ l = .motor := by
  cases l with
  | motor => cases h <;> first | exact ⟨rfl, rfl⟩ | exact nomatch hlock
  | environment => exact nomatch hrec
  | autonomous => exact nomatch hrec

theorem handles_motorStatus {h : Service} (hsub : MsgId.motorStatus ∈ h.subscribes) :
    h.mutex = none ∧ h.answers .motorStatus = [] := by
  cases h <;> first | exact ⟨rfl, rfl⟩ | exact absurd hsub (by decide)

/-- The messages that never come back to a mutex. -/
def quiet (l : Mutex) (m : Msg F) : Prop := l = .motor ∧ m.id = .motorStatus

/-- No thread blocks on a mutex of its own. -/
theorem machine_noRelock (pf : Platform F) : (machine pf).NoRelock quiet where
  owner := by
    intro h m l hlock hrec
    obtain ⟨rfl, rfl⟩ := eq_motor_of_mutex hlock hrec
    refine (code_emits pf .motor m).mono fun m' hm' => ⟨rfl, ?_⟩
    exact List.mem_singleton.1 (Service.answers_subset_publishes .motor m.id hm')
  lock := by
    rintro l m ⟨-, hm⟩ h hh hlock
    have hnone := (handles_motorStatus (hm ▸ mem_subscribers.1 hh)).1
    exact absurd (hnone.symm.trans hlock) (by simp)
  emits := by
    rintro l m ⟨-, hm⟩ h hh
    have hnothing := (handles_motorStatus (hm ▸ mem_subscribers.1 hh)).2
    refine (code_emits pf h m).mono fun m' hm' => ?_
    rw [hm, hnothing] at hm'
    exact absurd hm' List.not_mem_nil

/-- All threads between two activities. -/
def idle (w : World F) : AppConfig F := ⟨w, fun _ => []⟩

omit [FloatOps F] in
@[simp] theorem idle_put (w w' : World F) (t : Thread) : (idle w).put t w' [] = idle w' := by
  simp [idle, Config.put]

/-- A thread starts a publish and carries it through. -/
theorem publish_from_idle (pf : Platform F) {t : Thread} {w w' : World F} {m : Msg F}
    (hstart : Start pf t w w' [m]) :
    (machine pf).Run (fun _ _ => True) (idle w) (idle ((bus pf).publish m w')) := by
  have hone : (machine pf).Step (idle w) (t, none) ((idle w).put t w' [.publish m]) :=
    Machine.Step.start (S := machine pf) (c := idle w) rfl hstart
  have halone : (idle w).Undisturbed t := by
    intro t' _ l hl
    simp [idle, Config.holds] at hl
  have hpublish := Machine.publish_run (machine_noRelock pf) halone m w' [] 
    (by simp [Machine.Allows])
  rw [idle_put] at hpublish
  exact .head ⟨_, trivial, hone⟩ hpublish

/-- A thread starts something that publishes nothing. -/
theorem start_from_idle (pf : Platform F) {t : Thread} {w w' : World F}
    (hstart : Start pf t w w' []) :
    (machine pf).Run (fun _ _ => True) (idle w) (idle w') := by
  have hone : (machine pf).Step (idle w) (t, none) ((idle w).put t w' []) :=
    Machine.Step.start (S := machine pf) (c := idle w) rfl hstart
  rw [idle_put] at hone
  exact .single ⟨_, trivial, hone⟩

/-- The clock thread publishes the tick it keeps in `clockTick`. -/
theorem tick_from_idle (pf : Platform F) (tick : PhysicsTickPayload) {w : World F}
    (hclock : w.clockTick = none) :
    (machine pf).Run (fun _ _ => True) (idle { w with clockTick := some tick })
      (idle ((bus pf).publish (.physicsTick tick) w)) := by
  have hback : { w with clockTick := none } = w := by rw [← hclock]
  have hpublish : (machine pf).Run (fun _ _ => True) (idle { w with clockTick := some tick })
      (idle ((bus pf).publish (.physicsTick tick) { w with clockTick := none })) :=
    publish_from_idle pf (Start.tick rfl)
  rwa [hback] at hpublish

/-- The time an event happens at. -/
def Event.now : Event F → Nat
  | .tick now => now
  | .datagram now _ => now

/-- One event. -/
theorem step_from_idle (pf : Platform F) {w : World F} {e : Event F} (hnow : w.now ≤ e.now)
    (hclock : w.clockTick = none) :
    (machine pf).Run (fun _ _ => True) (idle w) (idle (step pf w e)) ∧
      (step pf w e).now = e.now ∧ (step pf w e).clockTick = none := by
  have hwait := start_from_idle pf (Start.wait (w := w) hnow)
  cases e with
  | tick now =>
      have hsnapshot := start_from_idle pf (Start.snapshot (w := { w with now := now }) hclock)
      exact ⟨hwait.trans (hsnapshot.trans (tick_from_idle pf _ hclock)), (publish_clock pf _ _).1,
        (publish_clock pf _ _).2.trans hclock⟩
  | datagram now m =>
      simp only [step]
      split
      · next hauth =>
          exact ⟨hwait.trans (publish_from_idle pf (Start.datagram hauth)),
            (publish_clock pf m _).1, (publish_clock pf m _).2.trans hclock⟩
      · exact ⟨hwait, rfl, hclock⟩

/-- **Sequences of events are runs of the threads.** -/
theorem run_from_idle (pf : Platform F) (events : List (Event F)) (w : World F)
    (htimes : (w.now :: events.map Event.now).Pairwise (· ≤ ·)) (hclock : w.clockTick = none) :
    (machine pf).Run (fun _ _ => True) (idle w) (idle (run pf w events)) := by
  induction events generalizing w with
  | nil => exact Relation.ReflTransGen.refl
  | cons e events ih =>
      obtain ⟨hfirst, hrest⟩ := List.pairwise_cons.1 htimes
      obtain ⟨hrun, hnow, hclock⟩ := step_from_idle pf (hfirst e.now List.mem_cons_self) hclock
      exact hrun.trans (ih _ (hnow ▸ hrest) hclock)

/-- In particular from the start. -/
theorem reachable_run (pf : Platform F) (events : List (Event F))
    (htimes : (events.map Event.now).Pairwise (· ≤ ·)) :
    Reachable pf (idle (run pf .init events)) := by
  refine run_from_idle pf events .init ?_ rfl
  exact List.pairwise_cons.2 ⟨fun _ _ => Nat.zero_le _, htimes⟩

end App

end ReflectPytest
