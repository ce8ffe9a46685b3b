/-
# Causal listings

A change depends on the changes that it was made on.  A listing is causal if it has every
change once, and behind the changes that it depends on.  Nothing in it depends on what is listed
later, so that of two changes the later one has the earlier one in its past, or both are
concurrent.
-/

import Mathlib.Data.List.Basic
import Mathlib.Data.List.Pairwise
import Mathlib.Logic.Relation

namespace Backstitch

universe u

variable {χ : Type u}

/-- A listing has every change once, and behind the changes that it depends on. -/
def CausallyListed (dependsOn : χ → χ → Prop) (listing : List χ) : Prop :=
  listing.Nodup ∧ ∀ (position : ℕ) (hash dependency : χ), listing[position]? = some hash →
    dependsOn hash dependency →
      ∃ earlier : ℕ, earlier < position ∧ listing[earlier]? = some dependency

/-- Neither of two changes is in the past of the other. -/
structure Concurrent (dependsOn : χ → χ → Prop) (first second : χ) : Prop where
  ne : first ≠ second
  not_left : ¬ Relation.TransGen dependsOn first second
  not_right : ¬ Relation.TransGen dependsOn second first

namespace CausallyListed

variable {dependsOn : χ → χ → Prop} {listing : List χ}

/-- A listing is positioned by its changes. -/
theorem position_eq (hlisted : CausallyListed dependsOn listing) {first second : ℕ} {hash : χ}
    (hfirst : listing[first]? = some hash) (hsecond : listing[second]? = some hash) :
    first = second := by
  obtain ⟨hbound, -⟩ := List.getElem?_eq_some_iff.mp hfirst
  exact (List.getElem?_inj hbound hlisted.1).mp (hfirst.trans hsecond.symm)

/-- The past of a change is listed before it. -/
theorem exists_of_transGen (hlisted : CausallyListed dependsOn listing) {position : ℕ}
    {hash past : χ} (hat : listing[position]? = some hash)
    (hpast : Relation.TransGen dependsOn hash past) :
    ∃ earlier : ℕ, earlier < position ∧ listing[earlier]? = some past := by
  induction hpast with
  | single hstep => exact hlisted.2 position hash _ hat hstep
  | tail _ hstep ih =>
      obtain ⟨middle, hmiddle, hatMiddle⟩ := ih
      obtain ⟨earlier, hearlier, hatEarlier⟩ := hlisted.2 middle _ _ hatMiddle hstep
      exact ⟨earlier, Nat.lt_trans hearlier hmiddle, hatEarlier⟩

/-- What is listed later is not in the past. -/
theorem not_transGen (hlisted : CausallyListed dependsOn listing) {first second : ℕ}
    {hash later : χ} (hle : first ≤ second) (hfirst : listing[first]? = some hash)
    (hsecond : listing[second]? = some later) : ¬ Relation.TransGen dependsOn hash later := by
  intro hpast
  obtain ⟨earlier, hearlier, hat⟩ := hlisted.exists_of_transGen hfirst hpast
  have hsame := hlisted.position_eq hat hsecond
  omega

/-- **Of two changes, the later one has the earlier one in its past, or both are concurrent.** -/
theorem transGen_or_concurrent (hlisted : CausallyListed dependsOn listing) {first second : ℕ}
    {hash later : χ} (hlt : first < second) (hfirst : listing[first]? = some hash)
    (hsecond : listing[second]? = some later) :
    Relation.TransGen dependsOn later hash ∨ Concurrent dependsOn hash later := by
  by_cases hpast : Relation.TransGen dependsOn later hash
  · exact .inl hpast
  · refine .inr ⟨?_, hlisted.not_transGen (Nat.le_of_lt hlt) hfirst hsecond, hpast⟩
    rintro rfl
    exact Nat.ne_of_lt hlt (hlisted.position_eq hfirst hsecond)

/-- In the order of the list, nothing has a later change in its past. -/
theorem pairwise (hlisted : CausallyListed dependsOn listing) :
    listing.Pairwise fun earlier later => ¬ Relation.TransGen dependsOn earlier later := by
  rw [List.pairwise_iff_getElem]
  intro first second hfirst hsecond hlt
  exact hlisted.not_transGen (Nat.le_of_lt hlt) (List.getElem?_eq_getElem hfirst)
    (List.getElem?_eq_getElem hsecond)

/-- In other words, what a change depends on is in front of it. -/
theorem iff_mem_front : CausallyListed dependsOn listing ↔ listing.Nodup ∧
    ∀ front hash rest, listing = front ++ hash :: rest →
      ∀ dependency, dependsOn hash dependency → dependency ∈ front := by
  refine and_congr_right fun hnodup => ⟨?_, ?_⟩
  · rintro hearlier front hash rest rfl dependency hdepends
    obtain ⟨earlier, hlt, hat⟩ := hearlier front.length hash dependency (by simp) hdepends
    rw [List.getElem?_append_left hlt] at hat
    exact List.mem_of_getElem? hat
  · intro hfront position hash dependency hat hdepends
    obtain ⟨hbound, rfl⟩ := List.getElem?_eq_some_iff.mp hat
    have hsplit : listing = listing.take position ++ listing[position] ::
        listing.drop (position + 1) := by
      rw [List.getElem_cons_drop, List.take_append_drop]
    obtain ⟨earlier, hlt, hat⟩ := List.getElem_of_mem (hfront _ _ _ hsplit dependency hdepends)
    rw [List.length_take] at hlt
    refine ⟨earlier, by omega, ?_⟩
    rw [List.getElem_take] at hat
    rw [List.getElem?_eq_getElem (by omega), hat]

/-- **The changes that only a second listing has can be listed behind the first one.** -/
theorem append_filter [DecidableEq χ] {second : List χ} (hfirst : CausallyListed dependsOn listing)
    (hsecond : CausallyListed dependsOn second) :
    CausallyListed dependsOn (listing ++ second.filter (· ∉ listing)) := by
  rw [iff_mem_front] at hfirst hsecond ⊢
  obtain ⟨hnodup, hfirst⟩ := hfirst
  obtain ⟨hnodup', hsecond⟩ := hsecond
  have hbehind : ∀ front hash rest, second.filter (· ∉ listing) = front ++ hash :: rest →
      ∀ dependency, dependsOn hash dependency → dependency ∈ listing ++ front := by
    intro front hash rest hsplit dependency hdepends
    obtain ⟨before, after, rfl, rfl, hafter⟩ := List.filter_eq_append_iff.mp hsplit
    obtain ⟨skipped, rest', rfl, hskipped, -, -⟩ := List.filter_eq_cons_iff.mp hafter
    by_cases hknown : dependency ∈ listing
    · exact List.mem_append_left _ hknown
    · have hlacks : decide (dependency ∉ listing) = true := decide_eq_true hknown
      have hmem := hsecond (before ++ skipped) hash rest' (by simp) dependency hdepends
      rcases List.mem_append.mp hmem with hbefore | hbetween
      · exact List.mem_append_right _ (List.mem_filter.mpr ⟨hbefore, hlacks⟩)
      · exact absurd hlacks (hskipped dependency hbetween)
  constructor
  · refine List.nodup_append.mpr ⟨hnodup, hnodup'.filter _, ?_⟩
    rintro hash hmem other hother rfl
    exact of_decide_eq_true (List.mem_filter.mp hother).2 hmem
  · intro front hash rest hsplit dependency hdepends
    rcases List.append_eq_append_iff.mp hsplit with ⟨more, rfl, hmore⟩ | ⟨more, rfl, hmore⟩
    · exact hbehind more hash rest hmore dependency hdepends
    · cases more with
      | nil => simpa using hbehind [] hash rest hmore.symm dependency hdepends
      | cons first more =>
          cases hmore
          exact hfirst front hash more rfl dependency hdepends

end CausallyListed

end Backstitch
