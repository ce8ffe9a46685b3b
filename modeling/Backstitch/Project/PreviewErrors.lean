/-
# Revert previews that fail

`create_revert_preview_branch` puts its branch into the metadata document and then compares hash
indexes, reads files, makes a sync state and commits.  Most of these steps can return an error, and
none of them takes the branch out again.

Heads are taken as the set of changes that they name.  Changes that a document does not know are
passed over when it is read at some heads.
-/

import Backstitch.Project.MergeBranch
import Backstitch.Project.RevertPreview

namespace Backstitch

universe u v w u₁ u₂ u₃ u₄ u₅

/-- The `HashMap` that `get_hash_index` returns: its keys, and what is under them. -/
structure HashIndex (π : Type u) (δ : Type v) where
  paths : Finset π
  hash : π → Option δ

/-- The `HashMap` that `get_changed_files_between_refs` returns. -/
structure ChangedFiles (π : Type u) where
  paths : Finset π
  change : π → Option ChangeType

/-- How `add_branch_to_meta` turns out where there is a metadata state. -/
inductive AdditionOutcome
  | added
  | hydrateFails
  | reconcileFails
  | threadFails
  deriving DecidableEq

/-- What the creation of a preview is asked for and meets. -/
structure RevertRun (κ : Type u) (χ : Type v) (ι : Type w) (α : Type u₁) (δ : Type u₂)
    (τ : Type u₃) (σ : Type u₄) (ω : Type u₅) where
  /-- The ref to go back to. -/
  ref : HistoryRef κ χ
  /-- The document that the repo creates, unless it has stopped. -/
  created : Option κ
  /-- The changes that are not taken over into it, because the merge fails. -/
  dropped : Finset χ
  addition : AdditionOutcome
  docEnv : DocEnv τ σ ω ι (List α) δ
  /-- What is at some changes, if `files` is there. -/
  files : Finset χ → Option (BranchDoc (List α) δ τ σ)
  /-- The change with which `get_hash_index` puts missing hashes into a document. -/
  rehash : HistoryRef κ χ → Finset χ → χ
  rehash_new : ∀ other doc, rehash other doc ∉ ref.heads ∧ rehash other doc ∉ doc
  /-- The order in which the changed files come. -/
  order : List (List α)
  newBinaryDoc : List α → ι
  commit : List (CommitEntry (List α) δ ω ι) → Finset χ → χ
  /-- The reconcile of `update_branch_sync_state`. -/
  tracking : MergeOutcome
  /-- The reconcile of `commit_fs_changes`. -/
  committing : MergeOutcome

/-- A call on the database that may return an error or panic. -/
abbrev DbCall (κ : Type u) (ι : Type v) (χ : Type w) (β : Type u₁) :=
  Option (MergeDb κ ι χ × Except (DbError κ) β)

/-- Go on with what a call returns. -/
def DbCall.andThen {κ : Type u} {ι : Type v} {χ : Type w} {β : Type u₁} {γ : Type u₂}
    (call : DbCall κ ι χ β) (next : MergeDb κ ι χ → β → DbCall κ ι χ γ) : DbCall κ ι χ γ :=
  call.bind fun
    | (db, .ok value) => next db value
    | (db, .error error) => some (db, .error error)

variable {κ : Type u} {χ : Type v} {ι : Type w} {α : Type u₁} {δ : Type u₂} {τ : Type u₃}
  {σ : Type u₄} {ω : Type u₅} [DecidableEq κ] [DecidableEq χ] [DecidableEq ι] [DecidableEq α]
  [DecidableEq δ]

namespace RevertRun

variable (run : RevertRun κ χ ι α δ τ σ ω)

/-- What a document is at some heads. -/
def filesAt (doc heads : Finset χ) : Option (BranchDoc (List α) δ τ σ) := run.files (heads ∩ doc)

/-- A scene whose hash is computed cannot be hydrated. -/
def IndexPanics (files : BranchDoc (List α) δ τ σ) : Prop :=
  ∃ path ∈ files.keys, files.indexPanicsAt run.docEnv path

instance (files : BranchDoc (List α) δ τ σ) : Decidable (run.IndexPanics files) :=
  inferInstanceAs (Decidable (∃ path ∈ files.keys, _))

def indexOf (files : BranchDoc (List α) δ τ σ) : HashIndex (List α) δ where
  paths := files.keys.filter fun path => files.getHashIndex run.docEnv path ≠ none
  hash := files.getHashIndex run.docEnv

/-- Some hash was missing, and is put into the document. -/
def Reinserts (files : BranchDoc (List α) δ τ σ) : Prop :=
  ∃ path ∈ files.keys, files.getHashIndex run.docEnv path ≠ none ∧ files.shouldReinsert path

instance (files : BranchDoc (List α) δ τ σ) : Decidable (run.Reinserts files) :=
  inferInstanceAs (Decidable (∃ path ∈ files.keys, _))

/-- What is committed at a changed path, if anything is. -/
def previewEntry (changed : ChangedFiles (List α)) (files : BranchDoc (List α) δ τ σ)
    (path : List α) : Option (CommitEntry (List α) δ ω ι) :=
  match changed.change path with
  | some .created | some .modified =>
      (files.getFileAtRef run.docEnv path).map fun content =>
        commitOf run.docEnv.toHash run.newBinaryDoc path (some content)
  | some .deleted => some (commitOf run.docEnv.toHash run.newBinaryDoc path none)
  | none => none

end RevertRun

/-- `FileSystemTraversal::get_file_changes`. -/
def HashIndex.changesTo {π : Type u} {δ : Type v} [DecidableEq π] [DecidableEq δ]
    (before after : HashIndex (List π) δ) : ChangedFiles (List π) where
  paths := (before.paths ∪ after.paths).filter fun path =>
    getFileChanges before.hash after.hash path ≠ none
  change := getFileChanges before.hash after.hash

/-- All files, as created ones. -/
def HashIndex.allCreated {π : Type u} {δ : Type v} (index : HashIndex (List π) δ) :
    ChangedFiles (List π) where
  paths := index.paths
  change path := (index.hash path).map fun _ => .created

namespace MergeDb

variable (run : RevertRun κ χ ι α δ τ σ ω) (db : MergeDb κ ι χ)

/-- `get_hash_index`. -/
def getHashIndex (ref : HistoryRef κ χ) : DbCall κ ι χ (HashIndex (List α) δ) :=
  match db.withShadowDocument ref.branch with
  | .error error => some (db, .error error)
  | .ok doc =>
      match run.filesAt doc ref.heads with
      | none => some (db, .error (.other "files not found"))
      | some files =>
          if run.IndexPanics files then none
          else if run.Reinserts files then
            some (db.setShadow ref.branch (insert (run.rehash ref doc) doc), .ok (run.indexOf files))
          else some (db, .ok (run.indexOf files))

/-- `get_changed_files_between_refs`.  A ref without heads is invalid. -/
def getChangedFilesBetweenRefs (oldRef newRef : HistoryRef κ χ) :
    DbCall κ ι χ (ChangedFiles (List α)) :=
  if newRef.heads = ∅ then some (db, .error (.other "the provided ref was invalid"))
  else
    (db.getHashIndex run newRef).andThen fun db newIndex =>
      if oldRef.heads = ∅ then some (db, .ok newIndex.allCreated)
      else
        (db.getHashIndex run oldRef).andThen fun db oldIndex =>
          some (db, .ok (oldIndex.changesTo newIndex))

/-- `get_files_at_ref`. -/
def getFilesAtRef (ref : HistoryRef κ χ) (filters : Finset (List α)) :
    DbCall κ ι χ (BranchDoc (List α) δ τ σ) :=
  if filters = ∅ then some (db, .error (.other "there were no provided file filters"))
  else
    match db.withShadowDocument ref.branch with
    | .error error => some (db, .error error)
    | .ok doc =>
        match run.filesAt doc ref.heads with
        | none => some (db, .error (.other "no files"))
        | some files =>
            if ∃ path ∈ filters, files.panicsAt run.docEnv path then none
            else some (db, .ok files)

/-- `add_branch_to_meta`.  A transaction that is not committed is rolled back. -/
def addBranchToMeta (branch : Branch κ χ) : DbCall κ ι χ Unit :=
  match db.metadataState with
  | none => some (db, .error .noMetadataState)
  | some _ =>
      match run.addition with
      | .added =>
          some ({ db with branches := Function.update db.branches branch.id (some branch) }, .ok ())
      | .hydrateFails => some (db, .error (.other "hydrate"))
      | .reconcileFails => some (db, .error (.other "reconcile"))
      | .threadFails => some (db, .error (.other "there was an issue with threading"))

/-- The sync state that `update_branch_sync_state` reconciles, for a branch without linked
documents. -/
def trackedSync (branch : κ) (heads : Finset χ) : BranchSyncState ι χ :=
  { (db.branchSyncStates branch).getD .new with lastTracked := heads, canonicalBinaryDocs := ∅ }

/-- `update_branch_sync_state`, for a branch without linked documents. -/
def updateBranchSyncState (branch : κ) (heads : Finset χ) : DbCall κ ι χ Unit :=
  match (db.trackedSync branch heads).tryReconcileBranch (db.canonical branch) run.tracking with
  | (sync, canonical, ok) =>
      some ({ db.setSync branch sync with
          canonical := Function.update db.canonical branch canonical },
        if ok then .ok () else .error (.other "Automerge"))

/-- `commit_fs_changes`, whose errors are not looked at. -/
def commitFsChanges (branch : κ) (entries : List (CommitEntry (List α) δ ω ι)) : MergeDb κ ι χ :=
  match db.branchSyncStates branch with
  | none => db
  | some sync =>
      match sync.shadowDoc with
      | none => db
      | some doc =>
          match { sync with shadowDoc := some (insert (run.commit entries doc) doc) }
            |>.tryReconcileBranch (db.canonical branch) run.committing with
          | (sync, canonical, _) =>
              { db.setSync branch sync with
                canonical := Function.update db.canonical branch canonical }

/-- The part of `create_revert_preview_branch` that comes after the branch is in the metadata. -/
def fillPreview (preview : κ) (currentRef : HistoryRef κ χ) : DbCall κ ι χ κ :=
  (db.getChangedFilesBetweenRefs run currentRef run.ref).andThen fun db changed =>
    (db.getFilesAtRef run run.ref changed.paths).andThen fun db files =>
      (db.updateBranchSyncState run preview currentRef.heads).andThen fun db _ =>
        let entries := run.order.filterMap (run.previewEntry changed files)
        some (db.commitFsChanges run preview entries, .ok preview)

/-- `create_revert_preview_branch`. -/
def createRevertPreviewBranch (branch : κ) : DbCall κ ι χ κ :=
  match db.withShadowDocument branch with
  | .error error => some (db, .error error)
  | .ok doc =>
      match run.created with
      | none => some (db, .error (.other "the repo has stopped"))
      | some preview =>
          let forked := { db with
            canonical := Function.update db.canonical preview (doc \ run.dropped) }
          (forked.addBranchToMeta run ⟨preview, some ⟨branch, doc⟩, none, some run.ref⟩).andThen
            fun db _ => db.fillPreview run preview ⟨branch, doc⟩

/-! ## When a failed call leaves no trace -/

/-- If the call returns an error, the metadata lists the branches that it listed before. -/
def LeavesNoTrace (branch : κ) : Prop :=
  ∀ after error, db.createRevertPreviewBranch run branch = some (after, .error error) →
    ∀ listed, after.Listed listed ↔ db.Listed listed

/-- The files at a ref, if the document of its branch is there and has them. -/
def filesOf (ref : HistoryRef κ χ) : Option (BranchDoc (List α) δ τ σ) :=
  (db.shadowDoc ref.branch).bind fun doc => run.filesAt doc ref.heads

/-- The index of a ref can be made. -/
def ReadsIndex (ref : HistoryRef κ χ) (index : HashIndex (List α) δ) : Prop :=
  ∃ files, db.filesOf run ref = some files ∧ ¬ run.IndexPanics files ∧ run.indexOf files = index

/-- Two refs cannot be compared: the new one has no heads or no files, or the old one has heads
and no files. -/
def ComparisonFails (oldRef newRef : HistoryRef κ χ) : Prop :=
  newRef.heads = ∅ ∨ db.filesOf run newRef = none ∨
    (∃ index, db.ReadsIndex run newRef index) ∧ oldRef.heads ≠ ∅ ∧ db.filesOf run oldRef = none

/-- What differs between two refs that can be compared. -/
def Differs (oldRef newRef : HistoryRef κ χ) (changed : ChangedFiles (List α)) : Prop :=
  newRef.heads ≠ ∅ ∧ ∃ newIndex, db.ReadsIndex run newRef newIndex ∧
    (oldRef.heads = ∅ ∧ changed = newIndex.allCreated ∨
      oldRef.heads ≠ ∅ ∧ ∃ oldIndex, db.ReadsIndex run oldRef oldIndex ∧
        changed = oldIndex.changesTo newIndex)

/-- No changed file makes the reading panic. -/
def ReadsChangedFiles (ref : HistoryRef κ χ) (changed : ChangedFiles (List α)) : Prop :=
  ∀ files, db.filesOf run ref = some files →
    ∀ path ∈ changed.paths, ¬ files.panicsAt run.docEnv path

/-- The preview fails once it is listed: the refs cannot be compared, nothing differs, or the new
branch cannot be reconciled. -/
def FillFails (currentRef : HistoryRef κ χ) : Prop :=
  db.ComparisonFails run currentRef run.ref ∨
    ∃ changed, db.Differs run currentRef run.ref changed ∧
      (changed.paths = ∅ ∨ db.ReadsChangedFiles run run.ref changed ∧ run.tracking ≠ .ok)

/-! ## What the steps leave -/

section Frames

variable {run db} {after : MergeDb κ ι χ} {current ref : HistoryRef κ χ} {branch : κ}

/-- A ref names changes of the document of its branch. -/
def Knows (db : MergeDb κ ι χ) (ref : HistoryRef κ χ) : Prop :=
  ∃ doc, db.shadowDoc ref.branch = some doc ∧ ref.heads ⊆ doc

/-- A step leaves the metadata, what is at the two refs, and the branches that are not there. -/
structure Leaves (run : RevertRun κ χ ι α δ τ σ ω) (current : HistoryRef κ χ)
    (db after : MergeDb κ ι χ) : Prop where
  metadata : SameMetadata db after
  filesOf_ref : after.filesOf run run.ref = db.filesOf run run.ref
  filesOf_current : after.filesOf run current = db.filesOf run current
  absent : ∀ branch, db.branchSyncStates branch = none → after.branchSyncStates branch = none
  knows : after.Knows current

omit [DecidableEq ι] [DecidableEq χ] in
theorem shadowDoc_setShadow {doc written : Finset χ} (hdoc : db.shadowDoc branch = some doc)
    (other : κ) : (db.setShadow branch written).shadowDoc other =
      if other = branch then some written else db.shadowDoc other := by
  obtain ⟨sync, hsync, -⟩ := Option.bind_eq_some_iff.mp hdoc
  simp only [setShadow, hsync, setSync, shadowDoc, Function.update_apply]
  split
  · rfl
  · rfl

omit [DecidableEq α] [DecidableEq δ] [DecidableEq ι] in
/-- A new change leaves what is at a ref that does not name it. -/
theorem filesOf_setShadow {doc : Finset χ} {change : χ} (hdoc : db.shadowDoc branch = some doc)
    (hnew : ref.branch = branch → change ∉ ref.heads) :
    (db.setShadow branch (insert change doc)).filesOf run ref = db.filesOf run ref := by
  rw [filesOf, filesOf, shadowDoc_setShadow hdoc]
  split
  · rename_i heq
    rw [heq, hdoc, Option.bind_some, Option.bind_some, RevertRun.filesAt, RevertRun.filesAt,
      Finset.inter_insert_of_notMem (hnew heq)]
  · rfl

omit [DecidableEq ι] [DecidableEq α] [DecidableEq δ] in
/-- Putting missing hashes into a document leaves what is at the two refs. -/
theorem leaves_rehash {doc : Finset χ} (hknows : db.Knows current)
    (hdoc : db.shadowDoc ref.branch = some doc) :
    Leaves run current db (db.setShadow ref.branch (insert (run.rehash ref doc) doc)) := by
  obtain ⟨known, hknown, hsubset⟩ := hknows
  obtain ⟨href, hfresh⟩ := run.rehash_new ref doc
  refine ⟨sameMetadata_setShadow, filesOf_setShadow hdoc fun _ => href, ?_, ?_, ?_⟩
  · apply filesOf_setShadow hdoc
    intro heq hmem
    rw [heq, hdoc] at hknown
    obtain rfl := Option.some.inj hknown
    exact hfresh (hsubset hmem)
  · intro other hother
    obtain ⟨sync, hsync, -⟩ := Option.bind_eq_some_iff.mp hdoc
    have hne : other ≠ ref.branch := by
      rintro rfl
      nomatch hsync.symm.trans hother
    simp only [setShadow, hsync, setSync]
    exact (Function.update_of_ne hne _ _).trans hother
  · rw [Knows, shadowDoc_setShadow hdoc]
    split
    · rename_i heq
      rw [heq, hdoc] at hknown
      obtain rfl := Option.some.inj hknown
      exact ⟨_, rfl, hsubset.trans (Finset.subset_insert _ _)⟩
    · exact ⟨known, hknown, hsubset⟩

omit [DecidableEq κ] [DecidableEq ι] [DecidableEq α] [DecidableEq δ] in
theorem Leaves.refl (hknows : db.Knows current) : Leaves run current db db :=
  ⟨⟨rfl, rfl⟩, rfl, rfl, fun _ => id, hknows⟩

omit [DecidableEq κ] [DecidableEq ι] [DecidableEq α] [DecidableEq δ] in
theorem Leaves.trans {second : MergeDb κ ι χ} (hfirst : Leaves run current db after)
    (hsecond : Leaves run current after second) : Leaves run current db second where
  metadata := hfirst.metadata.trans hsecond.metadata
  filesOf_ref := hsecond.filesOf_ref.trans hfirst.filesOf_ref
  filesOf_current := hsecond.filesOf_current.trans hfirst.filesOf_current
  absent branch hbranch := hsecond.absent branch (hfirst.absent branch hbranch)
  knows := hsecond.knows

omit [DecidableEq ι] [DecidableEq δ] in
theorem getHashIndex_of_unread (hfiles : db.filesOf run ref = none) :
    ∃ error, db.getHashIndex run ref = some (db, .error error) := by
  rw [getHashIndex]
  cases hdoc : db.shadowDoc ref.branch with
  | none =>
      obtain ⟨error, herror⟩ := withShadowDocument_of_none hdoc
      exact ⟨error, by rw [herror]⟩
  | some doc =>
      rw [filesOf, hdoc, Option.bind_some] at hfiles
      rw [withShadowDocument_of_some hdoc]
      dsimp only
      rw [hfiles]
      exact ⟨_, rfl⟩

omit [DecidableEq ι] [DecidableEq δ] in
/-- An index that can be made is returned. -/
theorem getHashIndex_of_reads (hknows : db.Knows current) {index : HashIndex (List α) δ}
    (hread : db.ReadsIndex run ref index) : ∃ after, Leaves run current db after ∧
      db.getHashIndex run ref = some (after, .ok index) := by
  obtain ⟨files, hfiles, hpanics, rfl⟩ := hread
  obtain ⟨doc, hdoc, hat⟩ := Option.bind_eq_some_iff.mp hfiles
  rw [getHashIndex, withShadowDocument_of_some hdoc]
  dsimp only
  rw [hat]
  dsimp only
  rw [if_neg hpanics]
  split
  · exact ⟨_, leaves_rehash hknows hdoc, rfl⟩
  · exact ⟨db, .refl hknows, rfl⟩

omit [DecidableEq ι] [DecidableEq δ] in
theorem getHashIndex_of_panics (hfiles : db.filesOf run ref ≠ none)
    (hread : ∀ index, ¬ db.ReadsIndex run ref index) : db.getHashIndex run ref = none := by
  obtain ⟨files, hsome⟩ := Option.ne_none_iff_exists'.mp hfiles
  obtain ⟨doc, hdoc, hat⟩ := Option.bind_eq_some_iff.mp hsome
  have hpanics : run.IndexPanics files := by
    by_contra hnot
    exact hread _ ⟨files, hsome, hnot, rfl⟩
  rw [getHashIndex, withShadowDocument_of_some hdoc]
  dsimp only
  rw [hat]
  exact if_pos hpanics

omit [DecidableEq κ] [DecidableEq ι] [DecidableEq δ] in
/-- What is read after a step is what was read before. -/
theorem Leaves.readsIndex_iff (hleaves : Leaves run current db after)
    {index : HashIndex (List α) δ} :
    after.ReadsIndex run current index ↔ db.ReadsIndex run current index := by
  rw [ReadsIndex, hleaves.filesOf_current, ReadsIndex]

omit [DecidableEq ι] in
/-- Refs that cannot be compared are an error. -/
theorem getChangedFilesBetweenRefs_of_fails (hknows : db.Knows current)
    (hfails : db.ComparisonFails run current run.ref) :
    ∃ after error, SameMetadata db after ∧
      db.getChangedFilesBetweenRefs run current run.ref = some (after, .error error) := by
  rw [getChangedFilesBetweenRefs]
  split
  · exact ⟨db, _, ⟨rfl, rfl⟩, rfl⟩
  · rename_i hvalid
    rcases hfails with hempty | hfiles | ⟨⟨index, hread⟩, hheads, hfiles⟩
    · exact absurd hempty hvalid
    · obtain ⟨error, herror⟩ := getHashIndex_of_unread hfiles
      exact ⟨db, error, ⟨rfl, rfl⟩, by rw [herror]; rfl⟩
    · obtain ⟨middle, hleaves, hindex⟩ := getHashIndex_of_reads hknows hread
      obtain ⟨error, herror⟩ := getHashIndex_of_unread (hleaves.filesOf_current.trans hfiles)
      refine ⟨middle, error, hleaves.metadata, ?_⟩
      rw [hindex, DbCall.andThen, Option.bind_some]
      dsimp only
      rw [if_neg hheads, herror]
      rfl

omit [DecidableEq ι] in
/-- What differs is returned. -/
theorem getChangedFilesBetweenRefs_of_differs (hknows : db.Knows current)
    {changed : ChangedFiles (List α)} (hdiffers : db.Differs run current run.ref changed) :
    ∃ after, Leaves run current db after ∧
      db.getChangedFilesBetweenRefs run current run.ref = some (after, .ok changed) := by
  obtain ⟨hvalid, newIndex, hnew, hold⟩ := hdiffers
  obtain ⟨middle, hleaves, hindex⟩ := getHashIndex_of_reads hknows hnew
  rw [getChangedFilesBetweenRefs, if_neg hvalid, hindex, DbCall.andThen, Option.bind_some]
  dsimp only
  rcases hold with ⟨hheads, rfl⟩ | ⟨hheads, oldIndex, hread, rfl⟩
  · exact ⟨middle, hleaves, if_pos hheads⟩
  · obtain ⟨after, hlast, holdIndex⟩ :=
      getHashIndex_of_reads hleaves.knows (hleaves.readsIndex_iff.mpr hread)
    refine ⟨after, hleaves.trans hlast, ?_⟩
    rw [if_neg hheads, holdIndex]
    rfl

omit [DecidableEq ι] in
/-- What can neither be compared nor fails panics. -/
theorem getChangedFilesBetweenRefs_of_panics (hknows : db.Knows current)
    (hfails : ¬ db.ComparisonFails run current run.ref)
    (hdiffers : ∀ changed, ¬ db.Differs run current run.ref changed) :
    db.getChangedFilesBetweenRefs run current run.ref = none := by
  obtain ⟨hvalid, hrest⟩ := not_or.mp hfails
  obtain ⟨hfiles, hcurrent⟩ := not_or.mp hrest
  rw [getChangedFilesBetweenRefs, if_neg hvalid]
  by_cases hread : ∃ index, db.ReadsIndex run run.ref index
  · obtain ⟨newIndex, hnew⟩ := hread
    obtain ⟨middle, hleaves, hindex⟩ := getHashIndex_of_reads hknows hnew
    have hheads : current.heads ≠ ∅ := fun hempty =>
      hdiffers _ ⟨hvalid, newIndex, hnew, .inl ⟨hempty, rfl⟩⟩
    have hold : middle.getHashIndex run current = none := by
      apply getHashIndex_of_panics
      · rw [hleaves.filesOf_current]
        exact fun hnone => hcurrent ⟨⟨newIndex, hnew⟩, hheads, hnone⟩
      · intro oldIndex hread
        exact hdiffers _ ⟨hvalid, newIndex, hnew,
          .inr ⟨hheads, oldIndex, hleaves.readsIndex_iff.mp hread, rfl⟩⟩
    rw [hindex, DbCall.andThen, Option.bind_some]
    dsimp only
    rw [if_neg hheads, hold]
    rfl
  · rw [getHashIndex_of_panics hfiles (not_exists.mp hread)]
    rfl

omit [DecidableEq κ] [DecidableEq ι] in
/-- The files of a ref that differ from something can be read. -/
theorem Differs.exists_files {changed : ChangedFiles (List α)}
    (hdiffers : db.Differs run current ref changed) : ∃ files, db.filesOf run ref = some files := by
  obtain ⟨-, -, ⟨files, hfiles, -⟩, -⟩ := hdiffers
  exact ⟨files, hfiles⟩

omit [DecidableEq κ] [DecidableEq ι] [DecidableEq δ] in
theorem getFilesAtRef_of_nonempty {files : BranchDoc (List α) δ τ σ} {filters : Finset (List α)}
    (hfiles : db.filesOf run ref = some files) (hfilters : filters ≠ ∅) :
    db.getFilesAtRef run ref filters =
      if ∃ path ∈ filters, files.panicsAt run.docEnv path then none else some (db, .ok files) := by
  obtain ⟨doc, hdoc, hat⟩ := Option.bind_eq_some_iff.mp hfiles
  rw [getFilesAtRef, if_neg hfilters, withShadowDocument_of_some hdoc]
  dsimp only
  rw [hat]

variable (run) in
omit [DecidableEq α] [DecidableEq δ] in
/-- A branch that was not there is reconciled, and it depends on that alone whether it can be
tracked. -/
theorem updateBranchSyncState_of_absent (habsent : db.branchSyncStates branch = none)
    (heads : Finset χ) : ∃ after, SameMetadata db after ∧
      db.updateBranchSyncState run branch heads =
        some (after, if run.tracking = .ok then .ok () else .error (.other "Automerge")) := by
  have hmerges : (db.trackedSync branch heads).Merges := by
    rw [trackedSync, habsent]
    refine ⟨fun id hid => absurd hid Finmap.notMem_empty, fun hupToDate => ?_⟩
    nomatch hupToDate.2
  unfold updateBranchSyncState BranchSyncState.tryReconcileBranch
  rw [if_pos hmerges]
  cases run.tracking with
  | ok =>
      refine ⟨_, ?_, rfl⟩
      exact ⟨rfl, rfl⟩
  | shadowFails =>
      refine ⟨_, ?_, rfl⟩
      exact ⟨rfl, rfl⟩
  | canonicalFails =>
      refine ⟨_, ?_, rfl⟩
      exact ⟨rfl, rfl⟩

/-- What fails once the branch is listed returns an error, and lists what was listed. -/
theorem fillPreview_of_fails {preview : κ} (hknows : db.Knows current)
    (habsent : db.branchSyncStates preview = none) (hfails : db.FillFails run current) :
    ∃ after error, SameMetadata db after ∧
      db.fillPreview run preview current = some (after, .error error) := by
  rw [fillPreview]
  rcases hfails with hcomparison | ⟨changed, hdiffers, hrest⟩
  · obtain ⟨after, error, hsame, herror⟩ := getChangedFilesBetweenRefs_of_fails hknows hcomparison
    exact ⟨after, error, hsame, by rw [herror]; rfl⟩
  · obtain ⟨middle, hleaves, hchanged⟩ := getChangedFilesBetweenRefs_of_differs hknows hdiffers
    obtain ⟨files, hfiles⟩ := hdiffers.exists_files
    rw [hchanged, DbCall.andThen, Option.bind_some]
    dsimp only
    by_cases hempty : changed.paths = ∅
    · rw [getFilesAtRef, if_pos hempty]
      exact ⟨middle, _, hleaves.metadata, rfl⟩
    · obtain ⟨hreads, htracking⟩ := hrest.resolve_left hempty
      have hnone : ¬ ∃ path ∈ changed.paths, files.panicsAt run.docEnv path := by
        rintro ⟨path, hpath, hpanics⟩
        exact hreads files hfiles path hpath hpanics
      obtain ⟨after, hsame, htracked⟩ := updateBranchSyncState_of_absent run
        (hleaves.absent preview habsent) current.heads
      rw [getFilesAtRef_of_nonempty (hleaves.filesOf_ref.trans hfiles) hempty, if_neg hnone]
      refine ⟨after, .other "Automerge", hleaves.metadata.trans hsame, ?_⟩
      rw [DbCall.andThen, Option.bind_some]
      dsimp only
      rw [htracked, if_neg htracking]
      rfl

/-- What does not fail returns no error. -/
theorem fillPreview_of_not_fails {preview : κ} (hknows : db.Knows current)
    (habsent : db.branchSyncStates preview = none) (hfails : ¬ db.FillFails run current)
    (after : MergeDb κ ι χ) (error : DbError κ) :
    db.fillPreview run preview current ≠ some (after, .error error) := by
  obtain ⟨hcomparison, hrest⟩ := not_or.mp hfails
  rw [fillPreview]
  by_cases hdiffers : ∃ changed, db.Differs run current run.ref changed
  · obtain ⟨changed, hdiffers⟩ := hdiffers
    obtain ⟨hempty, hreads⟩ := not_or.mp fun h => hrest ⟨changed, hdiffers, h⟩
    obtain ⟨middle, hleaves, hchanged⟩ := getChangedFilesBetweenRefs_of_differs hknows hdiffers
    obtain ⟨files, hfiles⟩ := hdiffers.exists_files
    rw [hchanged, DbCall.andThen, Option.bind_some]
    dsimp only
    rw [getFilesAtRef_of_nonempty (hleaves.filesOf_ref.trans hfiles) hempty]
    split
    · intro hresult
      cases hresult
    · rename_i hnone
      have hall : db.ReadsChangedFiles run run.ref changed := by
        intro found hfound path hpath hpanics
        obtain rfl := Option.some.inj (hfiles.symm.trans hfound)
        exact hnone ⟨path, hpath, hpanics⟩
      have htracking : run.tracking = .ok := by
        by_contra hnot
        exact hreads ⟨hall, hnot⟩
      obtain ⟨tracked, -, htracked⟩ := updateBranchSyncState_of_absent run
        (hleaves.absent preview habsent) current.heads
      rw [DbCall.andThen, Option.bind_some]
      dsimp only
      rw [htracked, if_pos htracking]
      intro hresult
      cases hresult
  · rw [getChangedFilesBetweenRefs_of_panics hknows hcomparison (not_exists.mp hdiffers)]
    intro hresult
    cases hresult

end Frames

/-- The branch comes to be listed: the document of the original is there, and neither the repo nor
the metadata fails. -/
structure Publishes (branch preview : κ) (doc : Finset χ) : Prop where
  doc : db.shadowDoc branch = some doc
  created : run.created = some preview
  metadata : db.metadataState ≠ none
  addition : run.addition = .added

/-- The database when the branch is listed. -/
def published (branch preview : κ) (doc : Finset χ) : MergeDb κ ι χ :=
  { db with
    canonical := Function.update db.canonical preview (doc \ run.dropped)
    branches := Function.update db.branches preview
      (some ⟨preview, some ⟨branch, doc⟩, none, some run.ref⟩) }

section Publish

variable {run db} {branch : κ}

theorem createRevertPreviewBranch_of_publishes {preview : κ} {doc : Finset χ}
    (hpublishes : db.Publishes run branch preview doc) :
    db.createRevertPreviewBranch run branch =
      (db.published run branch preview doc).fillPreview run preview ⟨branch, doc⟩ := by
  obtain ⟨branches, hmetadata⟩ := Option.ne_none_iff_exists'.mp hpublishes.metadata
  rw [createRevertPreviewBranch, withShadowDocument_of_some hpublishes.doc]
  dsimp only
  rw [hpublishes.created]
  dsimp only
  rw [addBranchToMeta, hmetadata]
  dsimp only
  rw [hpublishes.addition]
  dsimp only
  rw [← hmetadata]
  rfl

/-- A branch that does not come to be listed is an error. -/
theorem createRevertPreviewBranch_of_not_publishes
    (hpublishes : ∀ preview doc, ¬ db.Publishes run branch preview doc) :
    ∃ after error, after.branches = db.branches ∧
      db.createRevertPreviewBranch run branch = some (after, .error error) := by
  rw [createRevertPreviewBranch]
  cases hdoc : db.shadowDoc branch with
  | none =>
      obtain ⟨error, herror⟩ := withShadowDocument_of_none hdoc
      exact ⟨db, error, rfl, by rw [herror]⟩
  | some doc =>
      rw [withShadowDocument_of_some hdoc]
      dsimp only
      cases hcreated : run.created with
      | none => exact ⟨db, _, rfl, rfl⟩
      | some preview =>
          dsimp only
          rw [addBranchToMeta]
          cases hmetadata : db.metadataState with
          | none =>
              refine ⟨_, _, ?_, rfl⟩
              rfl
          | some branches =>
              have hadded : run.addition ≠ .added := fun hadded =>
                hpublishes preview doc ⟨hdoc, hcreated, by rw [hmetadata]; nofun, hadded⟩
              cases haddition : run.addition with
              | added => exact absurd haddition hadded
              | hydrateFails =>
                  refine ⟨_, _, ?_, rfl⟩
                  rfl
              | reconcileFails =>
                  refine ⟨_, _, ?_, rfl⟩
                  rfl
              | threadFails =>
                  refine ⟨_, _, ?_, rfl⟩
                  rfl

end Publish

/-- **When a failed revert preview leaves no trace**: for any database and any ref, and however its
steps turn out, if and only if no step fails that comes after the branch is put into the metadata. -/
theorem leavesNoTrace_iff (branch : κ)
    (hnew : ∀ preview, run.created = some preview →
      db.branchSyncStates preview = none ∧ db.branches preview = none) :
    db.LeavesNoTrace run branch ↔ ∀ preview doc, db.Publishes run branch preview doc →
      ¬ db.FillFails run ⟨branch, doc⟩ := by
  constructor
  · intro htrace preview doc hpublishes hfails
    obtain ⟨habsent, hunlisted⟩ := hnew preview hpublishes.created
    have hknows : (db.published run branch preview doc).Knows ⟨branch, doc⟩ :=
      ⟨doc, hpublishes.doc, Finset.Subset.refl doc⟩
    have hfailsThen : (db.published run branch preview doc).FillFails run ⟨branch, doc⟩ := hfails
    obtain ⟨after, error, hsame, herror⟩ := fillPreview_of_fails hknows habsent hfailsThen
    rw [← createRevertPreviewBranch_of_publishes hpublishes] at herror
    have hlisted : after.Listed preview := by
      rw [Listed, hsame.2]
      exact congrArg Option.isSome (Function.update_self preview _ db.branches)
    have hbefore := (htrace after error herror preview).mp hlisted
    rw [Listed, hunlisted] at hbefore
    cases hbefore
  · intro hnone after error herror listed
    by_cases hpublishes : ∃ preview doc, db.Publishes run branch preview doc
    · obtain ⟨preview, doc, hpublishes⟩ := hpublishes
      rw [createRevertPreviewBranch_of_publishes hpublishes] at herror
      have hknows : (db.published run branch preview doc).Knows ⟨branch, doc⟩ :=
        ⟨doc, hpublishes.doc, Finset.Subset.refl doc⟩
      exact absurd herror (fillPreview_of_not_fails hknows (hnew preview hpublishes.created).1
        (hnone preview doc hpublishes) after error)
    · obtain ⟨found, other, hsame, hfound⟩ := createRevertPreviewBranch_of_not_publishes
        fun preview doc h => hpublishes ⟨preview, doc, h⟩
      obtain ⟨rfl, -⟩ := Prod.mk.inj (Option.some.inj (hfound.symm.trans herror))
      rw [Listed, Listed, hsame]

/-- One branch that is loaded, with two changes. -/
def twoChanges : MergeDb ℕ ℕ ℕ where
  branchSyncStates
    | 0 => some ⟨some {0, 1}, {0, 1}, {0, 1}, ∅⟩
    | _ => none
  canonical _ := {0, 1}
  metadataState := some fun
    | 0 => some ⟨0, none, none, none⟩
    | _ => none
  branches
    | 0 => some ⟨0, none, none, none⟩
    | _ => none
  requestedCheckout := none

/-- The way back to the first of two changes, the second of which changed no file. -/
def backToSame : RevertRun ℕ ℕ ℕ ℕ ℕ (ℕ ×ₗ List Char) (ℕ ×ₗ ℕ) ℕ where
  ref := ⟨0, {0}⟩
  created := some 1
  dropped := ∅
  addition := .added
  docEnv := hashedBySize
  files heads := if 0 ∈ heads then some writtenText else none
  rehash _ doc := doc.sup id + 1
  rehash_new _ doc := by
    refine ⟨fun hmem => (nomatch Finset.mem_singleton.mp hmem), fun hmem => ?_⟩
    exact Nat.not_succ_le_self _ (Finset.le_sup hmem : id (doc.sup id + 1) ≤ doc.sup id)
  order := []
  newBinaryDoc _ := 0
  commit _ doc := doc.sup id + 1
  tracking := .ok
  committing := .ok

/-- The metadata fails to hydrate. -/
theorem leavesNoTrace_backToSame :
    twoChanges.LeavesNoTrace { backToSame with addition := .hydrateFails } 0 :=
  (leavesNoTrace_iff _ _ 0 fun _ hpreview => Option.some.inj hpreview ▸ ⟨rfl, rfl⟩).mpr
    fun _ _ hpublishes => nomatch hpublishes.addition

/-- **A preview without a changed file fails and stays listed.** -/
theorem not_leavesNoTrace_backToSame : ¬ twoChanges.LeavesNoTrace backToSame 0 := by
  intro htrace
  have hcall : (twoChanges.createRevertPreviewBranch backToSame 0).map
      (fun result => ((result.1.branches 1).isSome, result.2.toOption)) = some (true, none) := by
    decide +kernel
  obtain ⟨⟨after, result⟩, hresult, heq⟩ := Option.map_eq_some_iff.mp hcall
  obtain ⟨hlisted, herror⟩ := Prod.mk.inj heq
  cases result with
  | ok preview => nomatch herror
  | error error => nomatch (htrace after error hresult 1).mp hlisted

end MergeDb

end Backstitch
