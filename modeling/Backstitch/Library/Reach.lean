/-
# Walks that end

A recursive walk that checks something at every element comes back exactly when
everything it can reach passes the check and the relation is accessible from its
start.  When the walk reaches only finitely many elements, accessible means that
none of them can be reached from itself.
-/

import Mathlib.Data.Set.Finite.Basic
import Mathlib.Logic.Relation
import Mathlib.Order.WellFounded

namespace Backstitch

universe u

variable {α : Type u} {step : α → α → Prop} {passes : α → Prop}

open Relation

/-- A walk that checks `passes` and then goes on to every next element comes
back from `start`. -/
inductive Completes (step : α → α → Prop) (passes : α → Prop) : α → Prop
  | intro {start : α} (hpasses : passes start)
      (hnext : ∀ next, step start next → Completes step passes next) :
      Completes step passes start

/-- Accessibility passes along the relation. -/
theorem acc_of_reflTransGen {start target : α} (hacc : Acc (Function.swap step) start)
    (hreach : ReflTransGen step start target) : Acc (Function.swap step) target := by
  induction hreach with
  | refl => exact hacc
  | tail _ hstep ih => exact ih.inv hstep

/-- Nothing accessible lies on a cycle. -/
theorem not_transGen_self_of_acc {start : α} (hacc : Acc (Function.swap step) start) :
    ¬ TransGen step start start := by
  induction hacc with
  | intro start _ ih =>
      intro hcycle
      obtain ⟨next, hstep, hrest⟩ := TransGen.head'_iff.mp hcycle
      exact ih next hstep (TransGen.tail' hrest hstep)

/-- From a start that reaches finitely many elements, a walk always ends exactly
when no element it reaches lies on a cycle. -/
theorem acc_iff_forall_not_cycle {start : α}
    (hfinite : {target | ReflTransGen step start target}.Finite) :
    Acc (Function.swap step) start ↔
      ∀ target, ReflTransGen step start target → ¬ TransGen step target target := by
  constructor
  · intro hacc target hreach
    exact not_transGen_self_of_acc (acc_of_reflTransGen hacc hreach)
  · intro hacyclic
    let Reached := {target // ReflTransGen step start target}
    have : Finite Reached := hfinite
    let below : Reached → Reached → Prop := fun lower upper => TransGen step upper.1 lower.1
    have hwf : WellFounded below := by
      have : IsTrans Reached below := ⟨fun _ _ _ hfirst hsecond => hsecond.trans hfirst⟩
      have : Std.Irrefl below := ⟨fun reached hcycle => hacyclic reached.1 reached.2 hcycle⟩
      exact Finite.wellFounded_of_trans_of_irrefl below
    have hacc : ∀ reached : Reached, Acc (Function.swap step) reached.1 := by
      intro reached
      induction reached using hwf.induction with
      | _ reached ih =>
          refine Acc.intro _ fun next hstep => ?_
          exact ih ⟨next, reached.2.tail hstep⟩ (TransGen.single hstep)
    exact hacc ⟨start, .refl⟩

/-- A walk comes back exactly when its relation is accessible and everything
reached passes the check. -/
theorem completes_iff_acc {start : α} :
    Completes step passes start ↔ Acc (Function.swap step) start ∧
      ∀ target, ReflTransGen step start target → passes target := by
  constructor
  · intro hcompletes
    induction hcompletes with
    | intro hpasses _ ih =>
        refine ⟨Acc.intro _ fun next hstep => (ih next hstep).1, fun target hreach => ?_⟩
        rcases ReflTransGen.cases_head hreach with rfl | ⟨next, hstep, hrest⟩
        · exact hpasses
        · exact (ih next hstep).2 target hrest
  · rintro ⟨hacc, hpasses⟩
    induction hacc with
    | intro start _ ih =>
        refine .intro (hpasses start .refl) fun next hstep => ih next hstep ?_
        exact fun target hreach => hpasses target (.head hstep hreach)

/-- **A walk over finitely many elements comes back exactly when everything it
reaches passes the check and lies on no cycle.** -/
theorem completes_iff {start : α}
    (hfinite : {target | ReflTransGen step start target}.Finite) :
    Completes step passes start ↔
      ∀ target, ReflTransGen step start target →
        passes target ∧ ¬ TransGen step target target := by
  rw [completes_iff_acc, acc_iff_forall_not_cycle hfinite]
  constructor
  · rintro ⟨hacyclic, hpasses⟩ target hreach
    exact ⟨hpasses target hreach, hacyclic target hreach⟩
  · intro hboth
    exact ⟨fun target hreach => (hboth target hreach).2,
      fun target hreach => (hboth target hreach).1⟩

end Backstitch
