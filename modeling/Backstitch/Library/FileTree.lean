/-
# File trees

A file tree keeps files and directories under paths, with the shape that every
file system guarantees: whatever exists lies in directories that exist, and no
path is both.  Writing a file makes the directories above it, which is not
possible below a file; a write may also be refused for reasons outside the tree.
A write or a removal changes the content at its own path only, and directories
never go away.
-/

import Backstitch.Library.HashMap
import Mathlib.Data.List.Infix

namespace Backstitch

universe u v w

/-- The proper prefixes of a path, from the root on. -/
def ancestors {σ : Type u} [DecidableEq σ] (path : List σ) : Finset (List σ) :=
  path.inits.toFinset.erase path

section Ancestors

variable {σ : Type u} [DecidableEq σ] {path ancestor : List σ}

theorem mem_ancestors_iff : ancestor ∈ ancestors path ↔ ancestor <+: path ∧ ancestor ≠ path := by
  rw [ancestors, Finset.mem_erase, List.mem_toFinset, List.mem_inits, and_comm]

theorem not_mem_ancestors_self : path ∉ ancestors path :=
  fun hmem => (mem_ancestors_iff.mp hmem).2 rfl

/-- What lies above an ancestor lies above the path. -/
theorem ancestors_subset (hancestor : ancestor ∈ ancestors path) :
    ancestors ancestor ⊆ ancestors path := by
  obtain ⟨hbelow, hne⟩ := mem_ancestors_iff.mp hancestor
  intro above habove
  obtain ⟨habovePrefix, -⟩ := mem_ancestors_iff.mp habove
  refine mem_ancestors_iff.mpr ⟨habovePrefix.trans hbelow, ?_⟩
  rintro rfl
  exact hne (hbelow.eq_of_length_le habovePrefix.length_le)

end Ancestors

/-- Files and directories under paths. -/
structure FileTree (σ : Type u) (β : Type v) [DecidableEq σ] where
  files : HashMap (List σ) β
  dirs : Finset (List σ)
  closed : ∀ path, path ∈ dirs ∨ path ∈ files → ancestors path ⊆ dirs
  disjoint : ∀ path ∈ files, path ∉ dirs

namespace FileTree

variable {σ : Type u} {β : Type v} [DecidableEq σ]

/-- Nothing above the path is a file. -/
def Open (tree : FileTree σ β) (path : List σ) : Prop :=
  ∀ ancestor ∈ ancestors path, ancestor ∉ tree.files

instance (tree : FileTree σ β) (path : List σ) : Decidable (tree.Open path) :=
  inferInstanceAs (Decidable (∀ ancestor ∈ ancestors path, _))

/-- Nothing but the root. -/
def empty : FileTree σ β where
  files := ∅
  dirs := {[]}
  closed := by
    intro path hpath ancestor hancestor
    have hroot : path = [] := by simpa [Finmap.notMem_empty] using hpath
    subst hroot
    obtain ⟨hbelow, hne⟩ := mem_ancestors_iff.mp hancestor
    exact absurd (List.prefix_nil.mp hbelow) hne
  disjoint := fun path hpath => absurd hpath Finmap.notMem_empty

/-- Make the directories above a path. -/
def makeDirs (tree : FileTree σ β) (path : List σ) (hopen : tree.Open path) : FileTree σ β where
  files := tree.files
  dirs := tree.dirs ∪ ancestors path
  closed := by
    intro found hfound
    have hcases : found ∈ ancestors path ∨ found ∈ tree.dirs ∨ found ∈ tree.files := by
      rcases hfound with hdir | hfile
      · exact (Finset.mem_union.mp hdir).symm.imp_right .inl
      · exact .inr (.inr hfile)
    rcases hcases with hancestor | hfound
    · exact (ancestors_subset hancestor).trans Finset.subset_union_right
    · exact (tree.closed found hfound).trans Finset.subset_union_left
  disjoint := by
    intro found hfile hdir
    rcases Finset.mem_union.mp hdir with hdir | hancestor
    · exact tree.disjoint found hfile hdir
    · exact hopen found hancestor hfile

/-- Put content at a path whose directories are there. -/
def putFile (tree : FileTree σ β) (path : List σ) (content : β)
    (hdirs : ancestors path ⊆ tree.dirs) (hpath : path ∉ tree.dirs) : FileTree σ β where
  files := tree.files.insert path content
  dirs := tree.dirs
  closed := by
    intro found hfound
    rcases hfound with hdir | hfile
    · exact tree.closed found (.inl hdir)
    · rcases Finmap.mem_insert.mp hfile with rfl | hfile
      · exact hdirs
      · exact tree.closed found (.inr hfile)
  disjoint := by
    intro found hfile
    rcases Finmap.mem_insert.mp hfile with rfl | hfile
    · exact hpath
    · exact tree.disjoint found hfile

/-- Write a file, making the directories above it; nothing is written below a
file, over a directory or where the write is refused. -/
def write (tree : FileTree σ β) (refused : List σ → Bool) (path : List σ) (content : β) :
    FileTree σ β :=
  if hopen : tree.Open path then
    if hpath : path ∉ (tree.makeDirs path hopen).dirs ∧ refused path = false then
      (tree.makeDirs path hopen).putFile path content Finset.subset_union_right hpath.1
    else tree.makeDirs path hopen
  else tree

/-- Remove a file, unless that is refused. -/
def remove (tree : FileTree σ β) (refused : List σ → Bool) (path : List σ) : FileTree σ β where
  files := if refused path then tree.files else tree.files.erase path
  dirs := tree.dirs
  closed := by
    intro found hfound
    refine tree.closed found (hfound.imp_right fun hfile => ?_)
    split at hfile
    · exact hfile
    · exact (Finmap.mem_erase.mp hfile).2
  disjoint := by
    intro found hfile
    refine tree.disjoint found ?_
    split at hfile
    · exact hfile
    · exact (Finmap.mem_erase.mp hfile).2

/-- A write at this path goes through. -/
def Accepts (tree : FileTree σ β) (refused : List σ → Bool) (path : List σ) : Prop :=
  tree.Open path ∧ path ∉ tree.dirs ∧ refused path = false

instance (tree : FileTree σ β) (refused : List σ → Bool) (path : List σ) :
    Decidable (tree.Accepts refused path) :=
  inferInstanceAs (Decidable (_ ∧ _))

variable {tree : FileTree σ β} {refused : List σ → Bool} {path other : List σ} {content : β}

/-- **A write changes its own path, and only if it goes through.** -/
theorem lookup_write : (tree.write refused path content).files.lookup other =
    if other = path ∧ tree.Accepts refused path then some content
    else tree.files.lookup other := by
  have hdirs : ∀ hopen : tree.Open path,
      path ∉ (tree.makeDirs path hopen).dirs ↔ path ∉ tree.dirs := by
    intro hopen
    show path ∉ tree.dirs ∪ ancestors path ↔ path ∉ tree.dirs
    simp [not_mem_ancestors_self]
  unfold write
  by_cases hopen : tree.Open path
  · rw [dif_pos hopen]
    by_cases hpath : path ∉ (tree.makeDirs path hopen).dirs ∧ refused path = false
    · have haccepts : tree.Accepts refused path := ⟨hopen, (hdirs hopen).mp hpath.1, hpath.2⟩
      rw [dif_pos hpath]
      show (tree.files.insert path content).lookup other = _
      by_cases heq : other = path
      · rw [heq, Finmap.lookup_insert, if_pos ⟨rfl, haccepts⟩]
      · rw [Finmap.lookup_insert_of_ne _ heq, if_neg fun hboth => heq hboth.1]
    · rw [dif_neg hpath, if_neg]
      · rfl
      · intro ⟨_, _, hnotDir, hallowed⟩
        exact hpath ⟨(hdirs hopen).mpr hnotDir, hallowed⟩
  · rw [dif_neg hopen, if_neg]
    intro ⟨_, haccepts⟩
    exact hopen haccepts.1

theorem dirs_subset_write : tree.dirs ⊆ (tree.write refused path content).dirs := by
  unfold write
  split
  · split
    · exact Finset.subset_union_left
    · exact Finset.subset_union_left
  · exact Finset.Subset.refl _

/-- The only new directories are those above the path. -/
theorem dirs_write_subset :
    (tree.write refused path content).dirs ⊆ tree.dirs ∪ ancestors path := by
  unfold write
  split
  · split
    · exact Finset.Subset.refl _
    · exact Finset.Subset.refl _
  · exact Finset.subset_union_left

theorem lookup_remove : (tree.remove refused path).files.lookup other =
    if other = path ∧ refused path = false then none else tree.files.lookup other := by
  show (if refused path then tree.files else tree.files.erase path).lookup other = _
  cases hrefused : refused path with
  | true => simp
  | false =>
      by_cases heq : other = path
      · subst heq
        simp [Finmap.lookup_erase]
      · simp [heq, Finmap.lookup_erase_ne]

/-- What lies above something that exists is no file. -/
theorem open_of_mem (hmem : path ∈ tree.dirs ∨ path ∈ tree.files) : tree.Open path := by
  intro ancestor hancestor hfile
  exact tree.disjoint ancestor hfile (tree.closed path hmem hancestor)

/-- An existing file is only kept from being written by a refusal. -/
theorem accepts_iff_of_mem (hmem : path ∈ tree.files) :
    tree.Accepts refused path ↔ refused path = false := by
  constructor
  · exact fun haccepts => haccepts.2.2
  · exact fun hallowed => ⟨open_of_mem (.inr hmem), tree.disjoint path hmem, hallowed⟩

/-- Writing an existing file makes no directories. -/
theorem dirs_write_of_mem (hmem : path ∈ tree.files) :
    (tree.write refused path content).dirs = tree.dirs := by
  apply Finset.Subset.antisymm
  · refine dirs_write_subset.trans (Finset.union_subset (Finset.Subset.refl _) ?_)
    exact tree.closed path (.inr hmem)
  · exact dirs_subset_write

/-! ## Steps that each touch one path -/

section Steps

variable {α : Type w} {step : FileTree σ β → List σ × α → FileTree σ β}
  (hstep : ∀ tree entry other, other ≠ entry.1 →
    (step tree entry).files.lookup other = tree.files.lookup other)
include hstep

/-- Steps at other paths leave a path alone. -/
theorem lookup_foldl_of_not_mem {order : List (List σ × α)} (hpath : path ∉ order.map Prod.fst)
    (tree : FileTree σ β) :
    (order.foldl step tree).files.lookup path = tree.files.lookup path := by
  induction order generalizing tree with
  | nil => rfl
  | cons entry order ih =>
      rw [List.map_cons, List.mem_cons, not_or] at hpath
      rw [List.foldl_cons, ih hpath.2, hstep tree entry path hpath.1]

/-- Where every path has one step, that step alone decides what its path holds. -/
theorem lookup_foldl_of_split {before after : List (List σ × α)} {entry : List σ × α}
    (hnodup : ((before ++ entry :: after).map Prod.fst).Nodup) (tree : FileTree σ β) :
    ((before ++ entry :: after).foldl step tree).files.lookup entry.1 =
        (step (before.foldl step tree) entry).files.lookup entry.1 ∧
      (before.foldl step tree).files.lookup entry.1 = tree.files.lookup entry.1 := by
  rw [List.map_append, List.map_cons, List.nodup_append] at hnodup
  obtain ⟨-, hafter, hdisjoint⟩ := hnodup
  constructor
  · rw [List.foldl_append, List.foldl_cons]
    exact lookup_foldl_of_not_mem hstep (List.nodup_cons.mp hafter).1 _
  · apply lookup_foldl_of_not_mem hstep
    exact fun hbefore => hdisjoint _ hbefore _ List.mem_cons_self rfl

end Steps

end FileTree

end Backstitch
