/-
# Cycles of a relation

Facts about walks in a relation that gains one step, and about the elements of a
cycle.  Without cycles, a relation that steps to finitely many elements only is well-founded.
-/

import Mathlib.Logic.Relation
import Mathlib.Order.WellFoundedSet

namespace Backstitch

universe u

open Relation

variable {α : Type u} {step larger : α → α → Prop} {source target first last : α}

/-- Every element of a cycle is followed by an element of a cycle. -/
theorem exists_next_of_cycle (hcycle : TransGen step first first) :
    ∃ next, step first next ∧ TransGen step next next := by
  obtain ⟨next, hstep, hback⟩ := TransGen.head'_iff.mp hcycle
  exact ⟨next, hstep, TransGen.tail' hback hstep⟩

section Adding

variable (hlarger : ∀ first last, larger first last → step first last ∨
  first = source ∧ last = target)
include hlarger

/-- A walk that may use one more step does without it, or comes to its source and
goes on from its target without it. -/
theorem transGen_or_of_adding (hwalk : TransGen larger first last) :
    TransGen step first last ∨
      ReflTransGen step first source ∧ ReflTransGen step target last := by
  induction hwalk with
  | single hstep =>
      rcases hlarger _ _ hstep with hold | ⟨rfl, rfl⟩
      · exact .inl (.single hold)
      · exact .inr ⟨.refl, .refl⟩
  | tail _ hstep ih =>
      rcases hlarger _ _ hstep with hold | ⟨rfl, rfl⟩
      · exact ih.imp (fun hwalk => hwalk.tail hold) (And.imp_right fun hwalk => hwalk.tail hold)
      · exact .inr ⟨ih.elim TransGen.to_reflTransGen And.left, .refl⟩

theorem reflTransGen_or_of_adding (hwalk : ReflTransGen larger first last) :
    ReflTransGen step first last ∨ ReflTransGen step first source := by
  rcases reflTransGen_iff_eq_or_transGen.mp hwalk with rfl | hwalk
  · exact .inl .refl
  · exact (transGen_or_of_adding hlarger hwalk).imp TransGen.to_reflTransGen And.left

/-- **A new step closes a cycle only if there was a walk from its target to its
source.** -/
theorem cycle_or_of_adding (hcycle : TransGen larger first first) :
    TransGen step first first ∨ ReflTransGen step target source :=
  (transGen_or_of_adding hlarger hcycle).imp_right fun ⟨hforth, hback⟩ => hback.trans hforth

end Adding

/-- **Where finitely many elements have a predecessor, a relation without cycles is
well-founded.** -/
theorem wellFounded_of_acyclic {later : Set α} (hfinite : later.Finite)
    (hlater : ∀ first last, step first last → last ∈ later)
    (hacyclic : ∀ first, ¬ TransGen step first first) : WellFounded step := by
  have hirrefl : Std.Irrefl (TransGen step) := ⟨hacyclic⟩
  have horder : IsStrictOrder α (TransGen step) := { toIrrefl := hirrefl }
  have hacc : ∀ last ∈ later, Acc step last := by
    intro last hlast
    have hordered : later.WellFoundedOn (TransGen step) := hfinite.wellFoundedOn
    refine hordered.induction hlast fun last hlast ih => Acc.intro last fun first hstep => ?_
    by_cases hfirst : first ∈ later
    · exact ih first hfirst (.single hstep)
    · exact Acc.intro first fun before hbefore => absurd (hlater before first hbefore) hfirst
  refine ⟨fun last => ?_⟩
  by_cases hlast : last ∈ later
  · exact hacc last hlast
  · exact Acc.intro last fun first hfirst => absurd (hlater first last hfirst) hlast

end Backstitch
