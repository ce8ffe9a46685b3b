/-
# Systems and their runs

A system is given by the states it may start in and by what each action does where
it can be taken.  A run takes one action after another; who takes them, and in
which order, is left open, so every interleaving of several parties is a run.
Statements are about the states of all runs whose steps meet a condition.
-/

import Mathlib.Tactic.Common

namespace Backstitch

universe u v

/-- Where a system starts, and what an action does where it can be taken. -/
structure System (σ : Type u) (α : Type v) where
  start : σ → Prop
  step : σ → α → Option σ

namespace System

variable {σ : Type u} {α : Type v} (system : System σ α)

/-- The states of the runs whose steps all meet `allowed`. -/
inductive Reachable (allowed : σ → α → Prop) : σ → Prop
  | start {state : σ} (hstart : system.start state) : Reachable allowed state
  | step {state next : σ} {action : α} (hreach : Reachable allowed state)
      (hallowed : allowed state action) (hstep : system.step state action = some next) :
      Reachable allowed next

/-- Steps that all meet `allowed` lead from one state to another. -/
inductive Leads (allowed : σ → α → Prop) (first : σ) : σ → Prop
  | refl : Leads allowed first first
  | step {state next : σ} {action : α} (hleads : Leads allowed first state)
      (hallowed : allowed state action) (hstep : system.step state action = some next) :
      Leads allowed first next

/-- Where some actions lead when they are taken in order; an action that cannot be
taken ends the run. -/
def after (state : σ) : List α → σ
  | [] => state
  | action :: actions =>
      match system.step state action with
      | some next => after next actions
      | none => state

/-- Every one of these actions meets `allowed` where it is taken. -/
def RunsWithin (allowed : σ → α → Prop) : σ → List α → Prop
  | _, [] => True
  | state, action :: actions =>
      allowed state action ∧ ∀ next, system.step state action = some next →
        RunsWithin allowed next actions

variable {system} {allowed : σ → α → Prop} {state final : σ}

/-- **What the start has and every step keeps, all reachable states have.** -/
theorem Reachable.invariant {holds : σ → Prop} (hreach : system.Reachable allowed state)
    (hstart : ∀ state, system.start state → holds state)
    (hstep : ∀ state action next, holds state → allowed state action →
      system.step state action = some next → holds next) : holds state := by
  induction hreach with
  | start hinit => exact hstart _ hinit
  | step _ hallowed hnext ih => exact hstep _ _ _ ih hallowed hnext

/-- A weaker condition allows more runs. -/
theorem Reachable.mono {weaker : σ → α → Prop} (hreach : system.Reachable allowed state)
    (hweaker : ∀ state action, allowed state action → weaker state action) :
    system.Reachable weaker state := by
  induction hreach with
  | start hinit => exact .start hinit
  | step _ hallowed hnext ih => exact .step ih (hweaker _ _ hallowed) hnext

/-- What leads on from a reachable state leads to reachable states. -/
theorem Reachable.leads {narrower : σ → α → Prop} (hreach : system.Reachable allowed state)
    (hleads : system.Leads narrower state final)
    (hnarrower : ∀ state action, narrower state action → allowed state action) :
    system.Reachable allowed final := by
  induction hleads with
  | refl => exact hreach
  | step _ hallowed hstep ih => exact .step ih (hnarrower _ _ hallowed) hstep

/-- A run leads from its first state to its last. -/
theorem Leads.after {first : σ} {actions : List α} (hleads : system.Leads allowed first state)
    (hwithin : system.RunsWithin allowed state actions) :
    system.Leads allowed first (system.after state actions) := by
  induction actions generalizing state with
  | nil => exact hleads
  | cons action actions ih =>
      rw [System.after]
      cases hstep : system.step state action with
      | some next => exact ih (hleads.step hwithin.1 hstep) (hwithin.2 next hstep)
      | none => exact hleads

/-- A run leads from reachable states to reachable states. -/
theorem Reachable.after {actions : List α} (hreach : system.Reachable allowed state)
    (hwithin : system.RunsWithin allowed state actions) :
    system.Reachable allowed (system.after state actions) :=
  hreach.leads (Leads.refl.after hwithin) fun _ _ => id

/-- An action that can be taken leads to where it leads as a run. -/
theorem step_eq_some_after {action : α} (hstep : (system.step state action).isSome) :
    system.step state action = some (system.after state [action]) := by
  obtain ⟨next, hnext⟩ := Option.isSome_iff_exists.mp hstep
  rw [System.after, hnext]
  rfl

/-- A run goes on from where its first part leads. -/
theorem RunsWithin.append {first second : List α}
    (hfirst : system.RunsWithin allowed state first)
    (hsecond : system.RunsWithin allowed (system.after state first) second) :
    system.RunsWithin allowed state (first ++ second) := by
  induction first generalizing state with
  | nil => exact hsecond
  | cons action first ih =>
      refine ⟨hfirst.1, fun next hstep => ih (hfirst.2 next hstep) ?_⟩
      rwa [System.after, hstep] at hsecond

/-- An allowed action and a run from where it leads are a run. -/
theorem RunsWithin.cons {action : α} {actions : List α} {next : σ}
    (hallowed : allowed state action) (hstep : system.step state action = some next)
    (hrest : system.RunsWithin allowed next actions) :
    system.RunsWithin allowed state (action :: actions) := by
  refine ⟨hallowed, fun other hother => ?_⟩
  rwa [← Option.some.inj (hstep.symm.trans hother)]

/-- Actions that are allowed anywhere are allowed where they are taken. -/
theorem runsWithin_of_forall {actions : List α}
    (hall : ∀ action ∈ actions, ∀ state, allowed state action) (state : σ) :
    system.RunsWithin allowed state actions := by
  induction actions generalizing state with
  | nil => trivial
  | cons action actions ih =>
      refine ⟨hall action List.mem_cons_self state, fun next _ => ih ?_ next⟩
      exact fun later hlater => hall later (List.mem_cons_of_mem action hlater)

/-- Where no condition is asked, a run is all it takes. -/
theorem runsWithin_true (state : σ) (actions : List α) :
    system.RunsWithin (fun _ _ => True) state actions :=
  runsWithin_of_forall (fun _ _ _ => trivial) state

end System

end Backstitch
