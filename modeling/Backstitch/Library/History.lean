/-
# Systems that keep a record

A record of the run is carried along with the state: the first state decides how it begins, and
every step notes something in it.  Nothing depends on it, so that the states are those of the
runs without it.  Statements about a state can then speak of what has happened before.
-/

import Backstitch.Library.System

namespace Backstitch

universe u v w

namespace System

variable {σ : Type u} {α : Type v} {η : Type w}

/-- The system whose states carry along what `note` makes of the run. -/
def recording (system : System σ α) (first : σ → η) (note : η → σ → α → σ → η) :
    System (σ × η) α where
  start pair := system.start pair.1 ∧ pair.2 = first pair.1
  step pair action :=
    (system.step pair.1 action).map fun next => (next, note pair.2 pair.1 action next)

variable {system : System σ α} {first : σ → η} {note : η → σ → α → σ → η}
  {allowed : σ → α → Prop}

/-- A step of the recording system is a step, with its note. -/
theorem recording_step_eq_some_iff {pair next : σ × η} {action : α} :
    (system.recording first note).step pair action = some next ↔
      system.step pair.1 action = some next.1 ∧ next.2 = note pair.2 pair.1 action next.1 := by
  show (system.step pair.1 action).map _ = some next ↔ _
  rw [Option.map_eq_some_iff]
  constructor
  · rintro ⟨state, hstep, rfl⟩
    exact ⟨hstep, rfl⟩
  · rintro ⟨hstep, hnote⟩
    exact ⟨next.1, hstep, Prod.ext rfl hnote.symm⟩

/-- Every reachable state has a record. -/
theorem Reachable.exists_record {state : σ} (hreach : system.Reachable allowed state)
    (first : σ → η) (note : η → σ → α → σ → η) : ∃ record,
      (system.recording first note).Reachable (fun pair => allowed pair.1) (state, record) := by
  induction hreach with
  | @start state hstart => exact ⟨first state, .start ⟨hstart, rfl⟩⟩
  | @step state next action _ hallowed hstep ih =>
      obtain ⟨record, hrecord⟩ := ih
      exact ⟨note record state action next,
        hrecord.step hallowed (recording_step_eq_some_iff.mpr ⟨hstep, rfl⟩)⟩

/-- **What the start has with its record and every step keeps with its note, every reachable
state has with its record.** -/
theorem Reachable.invariant_record {permitted : σ × η → α → Prop} {holds : σ → η → Prop}
    {pair : σ × η} (hreach : (system.recording first note).Reachable permitted pair)
    (hstart : ∀ state, system.start state → holds state (first state))
    (hstep : ∀ state record action next, holds state record → permitted (state, record) action →
      system.step state action = some next → holds next (note record state action next)) :
    holds pair.1 pair.2 := by
  refine @Reachable.invariant _ _ _ _ _ (fun pair => holds pair.1 pair.2) hreach ?_ ?_
  · intro pair hinit
    rw [hinit.2]
    exact hstart pair.1 hinit.1
  · intro pair action next hholds hpermitted hnext
    obtain ⟨hstate, hnote⟩ := recording_step_eq_some_iff.mp hnext
    rw [hnote]
    exact hstep pair.1 pair.2 action next.1 hholds hpermitted hstate

end System

end Backstitch
