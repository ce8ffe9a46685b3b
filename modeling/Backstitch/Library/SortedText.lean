/-
# Text written from a hash map

The entries of a hash map are sorted by a key and each is written as a piece of
text.  Which iteration order the sort started from shows in the result exactly
when two entries with equal keys cannot be written in either order.
-/

import Backstitch.Library.HashMap
import Backstitch.Library.StableSort
import Mathlib.Data.String.Basic

namespace Backstitch

universe u v w

/-- The text of the items, sorted by a key. -/
def sortedText {α : Type u} {κ : Type v} [LinearOrder κ] (key : α → κ) (text : α → String)
    (items : List α) : String :=
  String.join ((sortByKey key items).map text)

theorem toList_sortedText {α : Type u} {κ : Type v} [LinearOrder κ] (key : α → κ)
    (text : α → String) (items : List α) :
    (sortedText key text items).toList =
      (sortByKey key items).flatMap fun item => (text item).toList := by
  rw [sortedText, String.toList_join, List.flatMap_map]

theorem sortedText_eq_iff {α : Type u} {κ : Type v} [LinearOrder κ] {key : α → κ}
    {text : α → String} {first second : List α} :
    sortedText key text first = sortedText key text second ↔
      (sortByKey key first).flatMap (fun item => (text item).toList) =
        (sortByKey key second).flatMap fun item => (text item).toList := by
  rw [← String.toList_inj, toList_sortedText, toList_sortedText]

theorem sortedText_congr {α : Type u} {κ : Type v} [LinearOrder κ] {key : α → κ}
    {text other : α → String} {items : List α} (htext : ∀ item ∈ items, text item = other item) :
    sortedText key text items = sortedText key other items := by
  unfold sortedText
  congr 1
  exact List.map_congr_left fun item hitem =>
    htext item ((sortByKey_perm key items).mem_iff.mp hitem)

/-- Reordering the items keeps the length of the text. -/
theorem length_sortedText_of_perm {α : Type u} {κ : Type v} [LinearOrder κ] {key : α → κ}
    {text : α → String} {first second : List α} (hperm : first.Perm second) :
    (sortedText key text first).toList.length = (sortedText key text second).toList.length := by
  rw [toList_sortedText, toList_sortedText]
  have hsorted : (sortByKey key first).Perm (sortByKey key second) :=
    ((sortByKey_perm key first).trans hperm).trans (sortByKey_perm key second).symm
  exact (hsorted.flatMap_right _).length_eq

namespace HashMap

variable {κ : Type u} {ν : Type v} {order : Type w} [DecidableEq κ]

/-- Any two entries with equal keys may be written in either order. -/
def TiesCommute (map : HashMap κ ν) (key : Entry κ ν → order) (text : Entry κ ν → String) :
    Prop :=
  ∀ first second : Entry κ ν, map.lookup first.1 = some first.2 →
    map.lookup second.1 = some second.2 → key first = key second →
    text first ++ text second = text second ++ text first

theorem tiesCommute_iff {map : HashMap κ ν} {key : Entry κ ν → order}
    {text : Entry κ ν → String} {entries : List (Entry κ ν)} (hentries : map.Iterates entries) :
    map.TiesCommute key text ↔
      Backstitch.TiesCommute key (fun entry => (text entry).toList) entries := by
  unfold TiesCommute Backstitch.TiesCommute
  simp only [← String.toList_append, String.toList_inj]
  constructor
  · intro hties first hfirst second hsecond
    exact hties first second (hentries.mem_iff.mp hfirst) (hentries.mem_iff.mp hsecond)
  · intro hties first second hfirst hsecond
    exact hties first (hentries.mem_iff.mpr hfirst) second (hentries.mem_iff.mpr hsecond)

/-- **The text is a function of the map exactly when ties commute.** -/
theorem forall_sortedText_eq_iff [LinearOrder order] {map : HashMap κ ν}
    {key : Entry κ ν → order} {text : Entry κ ν → String} :
    (∀ first second, map.Iterates first → map.Iterates second →
      sortedText key text first = sortedText key text second) ↔ map.TiesCommute key text := by
  obtain ⟨entries, hentries⟩ := map.exists_iterates
  rw [tiesCommute_iff hentries, ← forall_flatMap_sortByKey_eq_iff]
  simp only [sortedText_eq_iff]
  constructor
  · intro hsame first second hfirst hsecond
    exact hsame first second (hentries.of_perm hfirst) (hentries.of_perm hsecond)
  · intro hsame first second hfirst hsecond
    exact hsame first second (hfirst.perm hentries) (hsecond.perm hentries)

end HashMap

/-- Where matching pieces have equal lengths, equal texts have equal pieces. -/
theorem eq_of_join_eq {α : Type u} {items : List α} {first second : α → String}
    (hlength : ∀ item ∈ items, (first item).toList.length = (second item).toList.length)
    (hsame : String.join (items.map first) = String.join (items.map second)) :
    ∀ item ∈ items, first item = second item := by
  induction items with
  | nil => exact nofun
  | cons item items ih =>
      rw [List.map_cons, List.map_cons, String.join_cons, String.join_cons,
        ← String.toList_inj, String.toList_append, String.toList_append] at hsame
      obtain ⟨hhead, htail⟩ := List.append_inj hsame (hlength item (by simp))
      intro other hother
      rcases List.mem_cons.mp hother with rfl | hother
      · exact String.toList_inj.mp hhead
      · exact ih (fun item hitem => hlength item (List.mem_cons_of_mem _ hitem))
          (String.toList_inj.mp htail) other hother

end Backstitch
