/-
# Stable sorting of an unordered collection

A hash map hands its entries out in an arbitrary order; sorting them by a key
fixes the order only up to entries with equal keys.  A text assembled from the
sorted entries is therefore a function of the collection exactly when tied
entries may be written in either order.  This module proves that equivalence
for any key in a linear order and any text.
-/

import Mathlib.Data.List.Sort

namespace Backstitch

universe u v w

variable {α : Type u} {κ : Type v} {γ : Type w}

/-- Sort by a key, keeping the incoming order of entries with equal keys. -/
def sortByKey [LinearOrder κ] (key : α → κ) (items : List α) : List α :=
  items.insertionSort fun first second => key first ≤ key second

/-- Any two entries with equal keys may be written in either order. -/
def TiesCommute (key : α → κ) (text : α → List γ) (items : List α) : Prop :=
  ∀ first ∈ items, ∀ second ∈ items, key first = key second →
    text first ++ text second = text second ++ text first

namespace TiesCommute

variable {key : α → κ} {text : α → List γ}

theorem mono {small large : List α} (hties : TiesCommute key text large)
    (hsubset : small ⊆ large) : TiesCommute key text small :=
  fun first hfirst second hsecond =>
    hties first (hsubset hfirst) second (hsubset hsecond)

/-- An entry tied with every entry of a list may be written on either side of
the whole list. -/
theorem append_flatMap {entry : α} {items : List α}
    (hties : TiesCommute key text (entry :: items))
    (hkeys : ∀ item ∈ items, key item = key entry) :
    items.flatMap text ++ text entry = text entry ++ items.flatMap text := by
  induction items with
  | nil => simp
  | cons item items ih =>
      have hswap : text item ++ text entry = text entry ++ text item :=
        hties item (by simp) entry (by simp) (hkeys item (by simp))
      have hrest := ih (hties.mono (by simp)) fun other hother =>
        hkeys other (by simp [hother])
      calc
        (item :: items).flatMap text ++ text entry =
            text item ++ (items.flatMap text ++ text entry) := by simp
        _ = (text item ++ text entry) ++ items.flatMap text := by
          rw [hrest, List.append_assoc]
        _ = text entry ++ (item :: items).flatMap text := by
          rw [hswap]
          simp

/-- Two sorted rearrangements of the same entries give the same text when ties
commute: the head of one is preceded in the other only by entries tied with it. -/
theorem flatMap_eq_of_perm [LinearOrder κ] {first second : List α}
    (hties : TiesCommute key text first) (hperm : first.Perm second)
    (hfirst : first.Pairwise fun left right => key left ≤ key right)
    (hsecond : second.Pairwise fun left right => key left ≤ key right) :
    first.flatMap text = second.flatMap text := by
  induction first generalizing second with
  | nil => rw [List.nil_perm.mp hperm]
  | cons head tail ih =>
      obtain ⟨before, after, rfl⟩ :=
        List.append_of_mem (hperm.mem_iff.mp (List.mem_cons_self (a := head)))
      have htail : tail.Perm (before ++ after) :=
        (List.perm_cons head).mp (hperm.trans List.perm_middle)
      have hbefore : ∀ item ∈ before, key item = key head := by
        intro item hitem
        have hle : key item ≤ key head :=
          (List.pairwise_append.mp hsecond).2.2 item hitem head (by simp)
        have hge : key head ≤ key item :=
          (List.pairwise_cons.mp hfirst).1 item
            (htail.mem_iff.mpr (List.mem_append_left _ hitem))
        exact le_antisymm hle hge
      have hsplit : (before ++ after).Pairwise fun left right => key left ≤ key right :=
        hsecond.sublist ((List.Sublist.refl before).append (List.sublist_cons_self _ _))
      have hrest := ih (hties.mono (by simp)) htail (List.pairwise_cons.mp hfirst).2 hsplit
      have hmove : before.flatMap text ++ text head =
          text head ++ before.flatMap text := by
        refine append_flatMap (hties.mono ?_) hbefore
        intro item hitem
        rcases List.mem_cons.mp hitem with rfl | hitem
        · simp
        · exact List.mem_cons_of_mem _
            (htail.mem_iff.mpr (List.mem_append_left _ hitem))
      calc
        (head :: tail).flatMap text = text head ++ (before ++ after).flatMap text := by
          rw [List.flatMap_cons, hrest]
        _ = (before.flatMap text ++ text head) ++ after.flatMap text := by
          rw [hmove]
          simp
        _ = (before ++ head :: after).flatMap text := by simp

end TiesCommute

section SortByKey

variable [LinearOrder κ] (key : α → κ)

theorem sortByKey_cons (item : α) (items : List α) :
    sortByKey key (item :: items) =
      (sortByKey key items).orderedInsert (fun left right => key left ≤ key right) item :=
  rfl

theorem sortByKey_perm (items : List α) : (sortByKey key items).Perm items :=
  List.perm_insertionSort _ items

theorem sortByKey_pairwise (items : List α) :
    (sortByKey key items).Pairwise fun first second => key first ≤ key second := by
  have : Std.Total fun first second => key first ≤ key second :=
    ⟨fun first second => le_total (key first) (key second)⟩
  have : IsTrans α fun first second => key first ≤ key second :=
    ⟨fun _ _ _ => le_trans⟩
  exact List.pairwise_insertionSort _ items

theorem sortByKey_map {β : Type*} (f : β → α) (items : List β) :
    sortByKey key (items.map f) = (sortByKey (fun item => key (f item)) items).map f :=
  (List.map_insertionSort _ _ f items fun _ _ _ _ => Iff.rfl).symm

theorem sortByKey_of_length_lt_two {items : List α} (hshort : items.length < 2) :
    sortByKey key items = items := by
  cases items with
  | nil => rfl
  | cons first rest =>
      cases rest with
      | nil => rfl
      | cons second rest =>
          simp only [List.length_cons] at hshort
          omega

/-- Inserting two tied entries into one sorted list places them next to each
other, the one inserted last in front. -/
theorem orderedInsert_tied {first second : α} (hkey : key first = key second)
    (items : List α) :
    ∃ before after : List α,
      List.orderedInsert (fun left right => key left ≤ key right) first
          (List.orderedInsert (fun left right => key left ≤ key right) second items) =
        before ++ first :: second :: after ∧
      List.orderedInsert (fun left right => key left ≤ key right) second
          (List.orderedInsert (fun left right => key left ≤ key right) first items) =
        before ++ second :: first :: after := by
  induction items with
  | nil => exact ⟨[], [], by simp [hkey], by simp [hkey]⟩
  | cons item items ih =>
      by_cases hle : key second ≤ key item
      · exact ⟨[], item :: items, by simp [hle, hkey], by simp [hle, hkey]⟩
      · obtain ⟨before, after, hfirst, hsecond⟩ := ih
        refine ⟨item :: before, after, ?_, ?_⟩
        · simp only [List.orderedInsert, hle, hkey, if_false, List.cons_append]
          simpa [hkey] using hfirst
        · simp only [List.orderedInsert, hle, hkey, if_false, List.cons_append]
          simpa [hkey] using hsecond

variable {key}

/-- Two iteration orders of one collection sort to the same text when ties
commute. -/
theorem flatMap_sortByKey_eq {text : α → List γ} {first second : List α}
    (hperm : first.Perm second) (hties : TiesCommute key text first) :
    (sortByKey key first).flatMap text = (sortByKey key second).flatMap text := by
  refine TiesCommute.flatMap_eq_of_perm
    (hties.mono fun item hitem => (sortByKey_perm key first).mem_iff.mp hitem)
    (((sortByKey_perm key first).trans hperm).trans (sortByKey_perm key second).symm)
    (sortByKey_pairwise key first) (sortByKey_pairwise key second)

/-- **The text is a function of the collection exactly when ties commute.**
The converse swaps two tied entries at the front of the iteration order. -/
theorem forall_flatMap_sortByKey_eq_iff {text : α → List γ} {items : List α} :
    (∀ first second : List α, first.Perm items → second.Perm items →
      (sortByKey key first).flatMap text = (sortByKey key second).flatMap text) ↔
      TiesCommute key text items := by
  constructor
  · intro hsame first hfirst second hsecond hkey
    classical
    by_cases heq : first = second
    · rw [heq]
    obtain ⟨rest, hrest⟩ : ∃ rest, items.Perm (first :: second :: rest) := by
      refine ⟨(items.erase first).erase second, ?_⟩
      have hmem : second ∈ items.erase first := (List.mem_erase_of_ne (Ne.symm heq)).mpr hsecond
      exact (List.perm_cons_erase hfirst).trans ((List.perm_cons_erase hmem).cons first)
    have htext := hsame (first :: second :: rest) (second :: first :: rest) hrest.symm
      ((List.Perm.swap first second rest).trans hrest.symm)
    obtain ⟨before, after, hleft, hright⟩ :=
      orderedInsert_tied key hkey (sortByKey key rest)
    rw [sortByKey_cons, sortByKey_cons, sortByKey_cons, sortByKey_cons, hleft, hright]
      at htext
    simp only [List.flatMap_append, List.flatMap_cons, ← List.append_assoc] at htext
    simpa only [List.append_assoc, List.append_cancel_left_eq] using
      List.append_cancel_right htext
  · intro hties first second hfirst hsecond
    exact flatMap_sortByKey_eq (hfirst.trans hsecond.symm)
      (hties.mono fun item hitem => hfirst.mem_iff.mp hitem)

end SortByKey

end Backstitch
