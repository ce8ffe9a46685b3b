/-
# Revert previews

`create_revert_preview_branch` clones the shadow document of a branch, compares the hash
indexes of the branch and of the ref to go back to, reads what differs at that ref and
commits it to the clone.  A file that cannot be read drops out without an error.
`confirm_revert_preview_branch` merges the clone into the branch, and then reconciles the branch
with its canonical document, where other clients may have changed files.

A ref is taken as the document that it names.
-/

import Backstitch.Branches.SyncStates
import Backstitch.Document.HashIndex
import Backstitch.Document.LinkedFiles
import Backstitch.Project.Checkout

namespace Backstitch

universe u₁ u₂ u₃ u₄ u₅ u₆ u₇ u₈

variable {τ : Type u₁} {σ : Type u₂} {ω : Type u₃} {ι : Type u₄} {α : Type u₅} {δ : Type u₆}
  {κ : Type u₇} {χ : Type u₈}

/-- What the metadata document knows of a branch, as far as reverts need it. -/
structure RevertMeta (κ : Type u₇) where
  forkedFrom : Option κ
  /-- `reverted_to` is set. -/
  reverted : Bool

/-- The `BranchSyncState` of a branch, with its canonical document. -/
structure RevertSync (α : Type u₅) (δ : Type u₆) (τ : Type u₁) (σ : Type u₂) (χ : Type u₈) where
  canonicalDoc : BranchDoc (List α) δ τ σ
  shadowDoc : Option (BranchDoc (List α) δ τ σ)
  /-- `resolved_all_canonical_binary_docs`. -/
  resolved : Bool
  lastTracked : Finset χ
  lastReconciled : Finset χ

structure RevertDb (α : Type u₅) (δ : Type u₆) (τ : Type u₁) (σ : Type u₂) (κ : Type u₇)
    (χ : Type u₈) where
  branchSyncStates : κ → Option (RevertSync α δ τ σ χ)
  hasMetadata : Bool
  branches : κ → Option (RevertMeta κ)

/-- The document that `with_shadow_document` passes on. -/
def RevertDb.shadow (db : RevertDb α δ τ σ κ χ) (branch : κ) : Option (BranchDoc (List α) δ τ σ) :=
  (db.branchSyncStates branch).bind RevertSync.shadowDoc

namespace RevertDb

variable [DecidableEq κ] (db : RevertDb α δ τ σ κ χ) (branch : κ) (sync : RevertSync α δ τ σ χ)

def setSync : RevertDb α δ τ σ κ χ :=
  { db with branchSyncStates := Function.update db.branchSyncStates branch (some sync) }

@[simp] theorem branchSyncStates_setSync_self :
    (db.setSync branch sync).branchSyncStates branch = some sync :=
  Function.update_self _ _ _

@[simp] theorem branchSyncStates_setSync_of_ne {other : κ} (hne : other ≠ branch) :
    (db.setSync branch sync).branchSyncStates other = db.branchSyncStates other :=
  Function.update_of_ne hne _ _

@[simp] theorem shadow_setSync_self : (db.setSync branch sync).shadow branch = sync.shadowDoc := by
  rw [shadow, branchSyncStates_setSync_self, Option.bind_some]

@[simp] theorem shadow_setSync_of_ne {other : κ} (hne : other ≠ branch) :
    (db.setSync branch sync).shadow other = db.shadow other := by
  rw [shadow, branchSyncStates_setSync_of_ne db branch sync hne, shadow]

end RevertDb

namespace RevertSync

variable [DecidableEq α] [DecidableEq δ] [DecidableEq χ] [Max τ] [Max σ]
  (getHeads : BranchDoc (List α) δ τ σ → Finset χ) (sync : RevertSync α δ τ σ χ)

omit [DecidableEq α] [DecidableEq δ] [DecidableEq χ] [Max τ] [Max σ] in
/-- A reconcile passes its two checks and merges. -/
def Merges : Prop :=
  sync.resolved = true ∧
    ¬ (sync.lastReconciled = sync.lastTracked ∧
      sync.shadowDoc.map getHeads = some sync.lastReconciled)

instance : Decidable (sync.Merges getHeads) :=
  inferInstanceAs (Decidable (_ ∧ _))

/-- `try_reconcile_branch`: the state afterwards, and whether it returned without an error. -/
def tryReconcileBranch (outcome : MergeOutcome) : RevertSync α δ τ σ χ × Bool :=
  if sync.Merges getHeads then
    let shadow := sync.shadowDoc.getD sync.canonicalDoc
    let merged := shadow.merge sync.canonicalDoc
    match outcome with
    | .ok =>
        let canonical := sync.canonicalDoc.merge merged
        ({ sync with
            canonicalDoc := canonical
            shadowDoc := some merged
            lastReconciled := getHeads canonical
            lastTracked := getHeads canonical }, true)
    | .shadowFails => ({ sync with shadowDoc := some shadow }, false)
    | .canonicalFails => ({ sync with shadowDoc := some merged }, false)
  else (sync, true)

end RevertSync

/-- What `commit_fs_changes` makes of one file. -/
def commitOf (toHash : FileContent ω → δ) (newBinaryDoc : List α → ι) (path : List α) :
    Option (FileContent ω) → CommitEntry (List α) δ ω ι
  | some (.binary bytes) => .binary path (newBinaryDoc path) (toHash (.binary bytes))
  | some (.string text) => .text path text (toHash (.string text))
  | some (.scene scene) => .scene path scene (toHash (.scene scene))
  | none => .delete path

section Revert

variable [DecidableEq α] [DecidableEq δ] (env : DocEnv τ σ ω ι (List α) δ)

/-- `get_changed_files_between_refs`. -/
def changeBetween (current ref : BranchDoc (List α) δ τ σ) (path : List α) : Option ChangeType :=
  getFileChanges (current.getHashIndex env) (ref.getHashIndex env) path

def changedFiles (current ref : BranchDoc (List α) δ τ σ) : Finset (List α) :=
  (current.keys ∪ ref.keys).filter fun path => changeBetween env current ref path ≠ none

/-- What is committed at a path, if anything is. -/
def revertFile (newBinaryDoc : List α → ι) (current ref : BranchDoc (List α) δ τ σ)
    (path : List α) : Option (CommitEntry (List α) δ ω ι) :=
  match changeBetween env current ref path with
  | some .created | some .modified =>
      (ref.getFileAtRef env path).map fun content =>
        commitOf env.toHash newBinaryDoc path (some content)
  | some .deleted => some (commitOf env.toHash newBinaryDoc path none)
  | none => none

/-- The sync state that is made for the preview by hand, reconciled, committed to and reconciled
again.  Only the first reconcile passes an error on. -/
def previewSync [DecidableEq χ] [Max τ] [Max σ] {actors : ℕ} (actor : Fin actors)
    (getHeads : BranchDoc (List α) δ τ σ → Finset χ) (tracking committing : MergeOutcome)
    (current : BranchDoc (List α) δ τ σ) (entries : List (CommitEntry (List α) δ ω ι)) :
    Option (RevertSync α δ τ σ χ) :=
  match RevertSync.tryReconcileBranch getHeads
      ⟨current, none, true, getHeads current, ∅⟩ tracking with
  | (_, false) => none
  | (sync, true) =>
      match sync.shadowDoc with
      | none => some sync
      | some doc =>
          some (RevertSync.tryReconcileBranch getHeads
            { sync with shadowDoc := some (doc.commitEntries actor env.toNested entries).1 }
            committing).1

/-- `create_revert_preview_branch`.  The two indexes are made from `refPaths` and
`currentPaths`, the paths of the documents as they are listed, and put missing hashes into the
document of the branch.  `order` is the one in which the changed files come, and
`newBinaryDoc` names the documents that are made for binary files. -/
def createRevertPreviewBranch [DecidableEq κ] [DecidableEq χ] [Max τ] [Max σ] {actors : ℕ}
    (actor : Fin actors) (getHeads : BranchDoc (List α) δ τ σ → Finset χ)
    (tracking committing : MergeOutcome) (newBinaryDoc : List α → ι)
    (refPaths currentPaths order : List (List α)) (db : RevertDb α δ τ σ κ χ)
    (branch preview : κ) (ref : BranchDoc (List α) δ τ σ) : Option (RevertDb α δ τ σ κ χ) :=
  match db.branchSyncStates branch with
  | none => none
  | some sync =>
      match sync.shadowDoc with
      | none => none
      | some current =>
          if !db.hasMetadata then none
          else if (∃ path ∈ ref.keys, ref.indexPanicsAt env path) ∨
              (∃ path ∈ current.keys, current.indexPanicsAt env path) ∨
              ∃ path ∈ changedFiles env current ref, ref.panicsAt env path then none
          else if changedFiles env current ref = ∅ then none
          else
            let tip := BranchDoc.reinsertHashes actor env ref current refPaths
            let tip := BranchDoc.reinsertHashes actor env current tip currentPaths
            let entries := order.filterMap (revertFile env newBinaryDoc current ref)
            (previewSync env actor getHeads tracking committing current entries).map fun made =>
              { (db.setSync branch { sync with shadowDoc := some tip }).setSync preview made with
                branches := Function.update db.branches preview (some ⟨some branch, true⟩) }

/-- `confirm_revert_preview_branch`. -/
def confirmRevertPreviewBranch [DecidableEq κ] [DecidableEq χ] [Max τ] [Max σ]
    (getHeads : BranchDoc (List α) δ τ σ → Finset χ) (outcome : MergeOutcome)
    (db : RevertDb α δ τ σ κ χ) (preview : κ) : Option (RevertDb α δ τ σ κ χ) :=
  match db.branches preview with
  | some ⟨some target, true⟩ =>
      match db.shadow preview, db.branchSyncStates target with
      | some source, some sync =>
          match sync.shadowDoc with
          | none => none
          | some current =>
              match RevertSync.tryReconcileBranch getHeads
                  { sync with shadowDoc := some (current.merge source) } outcome with
              | (_, false) => none
              | (reconciled, true) => some (db.setSync target reconciled)
      | _, _ => none
  | _ => none

end Revert

/-! ## What a revert comes to -/

section Revert

variable [DecidableEq α] [DecidableEq δ] (env : DocEnv τ σ ω ι (List α) δ)
  (newBinaryDoc : List α → ι) {current ref : BranchDoc (List α) δ τ σ} {path : List α}

omit [DecidableEq α] in
theorem getFileChanges_eq_none_iff {before after : List α → Option δ} :
    getFileChanges before after path = none ↔ before path = after path := by
  rw [getFileChanges]
  cases before path <;> cases after path <;> simp

omit [DecidableEq α] in
theorem getFileChanges_eq_deleted_iff {before after : List α → Option δ} :
    getFileChanges before after path = some .deleted ↔
      before path ≠ none ∧ after path = none := by
  rw [getFileChanges]
  cases before path <;> cases after path <;> simp

omit [DecidableEq α] [DecidableEq δ] in
theorem path_commitOf (toHash : FileContent ω → δ) (content : Option (FileContent ω)) :
    (commitOf toHash newBinaryDoc path content).path = path := by
  match content with
  | some (.binary _) | some (.string _) | some (.scene _) | none => rfl

theorem path_of_revertFile {commit : CommitEntry (List α) δ ω ι}
    (hcommit : revertFile env newBinaryDoc current ref path = some commit) :
    commit.path = path := by
  rw [revertFile] at hcommit
  split at hcommit
  · obtain ⟨content, -, rfl⟩ := Option.map_eq_some_iff.mp hcommit
    exact path_commitOf newBinaryDoc env.toHash (some content)
  · obtain ⟨content, -, rfl⟩ := Option.map_eq_some_iff.mp hcommit
    exact path_commitOf newBinaryDoc env.toHash (some content)
  · cases hcommit
    rfl
  · nomatch hcommit

/-- The paths of what is committed are some of those that differ, in their order. -/
theorem paths_sublist (order : List (List α)) :
    ((order.filterMap (revertFile env newBinaryDoc current ref)).map CommitEntry.path).Sublist
      order := by
  induction order with
  | nil => exact .slnil
  | cons path order ih =>
      cases hcommit : revertFile env newBinaryDoc current ref path with
      | none =>
          rw [List.filterMap_cons_none hcommit]
          exact ih.cons path
      | some commit =>
          rw [List.filterMap_cons_some hcommit, List.map_cons,
            path_of_revertFile env newBinaryDoc hcommit]
          exact ih.cons_cons path

/-- A changed file can be read at the ref, and the index gives the hash of what is read. -/
def ReadsAsIndexed (current ref : BranchDoc (List α) δ τ σ) (path : List α) : Prop :=
  changeBetween env current ref path = some .created ∨
      changeBetween env current ref path = some .modified →
    ∃ content, ref.getFileAtRef env path = some content ∧
      ref.getHashIndex env path = some (env.toHash content)

/-- A path is written or deleted, or stays as it is. -/
theorem changeBetween_cases (current ref : BranchDoc (List α) δ τ σ) (path : List α) :
    changeBetween env current ref path = none ∨
      changeBetween env current ref path = some .deleted ∨
        changeBetween env current ref path = some .created ∨
          changeBetween env current ref path = some .modified := by
  match changeBetween env current ref path with
  | none => exact .inl rfl
  | some .deleted => exact .inr (.inl rfl)
  | some .created => exact .inr (.inr (.inl rfl))
  | some .modified => exact .inr (.inr (.inr rfl))

omit [DecidableEq α] [DecidableEq δ] in
/-- A commit of content stores its hash. -/
theorem hashes_commitOf (toHash : FileContent ω → δ) (content : FileContent ω) :
    (commitOf toHash newBinaryDoc path (some content)).hashes = {.bytes (toHash content)} := by
  match content with
  | .binary _ | .string _ | .scene _ => rfl

/-- **After the commit a path has the hash of the ref exactly when it reads as indexed.** -/
theorem getHashIndex_commitEntries_iff {actors : ℕ} (actor : Fin actors) (hvalid : current.Valid)
    (hnested : env.HydratesBack) {order : List (List α)} (hnodup : order.Nodup)
    (horder : ∀ path, changeBetween env current ref path ≠ none → path ∈ order)
    (path : List α) :
    (current.commitEntries actor env.toNested
        (order.filterMap (revertFile env newBinaryDoc current ref))).1.getHashIndex env path =
      ref.getHashIndex env path ↔ ReadsAsIndexed env current ref path := by
  have hpaths : ((order.filterMap (revertFile env newBinaryDoc current ref)).map
    CommitEntry.path).Sublist order := paths_sublist env newBinaryDoc order
  obtain ⟨hread, hothers, -⟩ := hvalid.commitEntries actor env.toNested hnested
    (hpaths.nodup hnodup)
  have hin : ∀ commit, revertFile env newBinaryDoc current ref path = some commit →
      changeBetween env current ref path ≠ none →
        commit ∈ order.filterMap (revertFile env newBinaryDoc current ref) :=
    fun commit hcommit hchange => List.mem_filterMap.mpr ⟨path, horder path hchange, hcommit⟩
  have hkept : revertFile env newBinaryDoc current ref path = none →
      (current.commitEntries actor env.toNested
        (order.filterMap (revertFile env newBinaryDoc current ref))).1.getHashIndex env path =
      current.getHashIndex env path := by
    intro hnone
    have hpath : path ∉ (order.filterMap
        (revertFile env newBinaryDoc current ref)).map CommitEntry.path := by
      intro hmem
      obtain ⟨commit, hcommit, heq⟩ := List.mem_map.mp hmem
      obtain ⟨other, -, hother⟩ := List.mem_filterMap.mp hcommit
      rw [path_of_revertFile env newBinaryDoc hother] at heq
      rw [heq, hnone] at hother
      nomatch hother
    exact BranchDoc.getHashIndex_congr (hothers path hpath).1 (hothers path hpath).2
  rcases changeBetween_cases env current ref path with hchange | hchange | hchange
  · -- nothing differs, and nothing is committed
    rw [hkept (by rw [revertFile, hchange]), iff_true_left (getFileChanges_eq_none_iff.mp hchange)]
    intro hor
    rw [hchange] at hor
    exact hor.elim nofun nofun
  · have hcommit : revertFile env newBinaryDoc current ref path = some (.delete path) := by
      rw [revertFile, hchange]
      rfl
    have hdeleted := hread _ (hin _ hcommit (by rw [hchange]; nofun))
    have hindex := BranchDoc.getHashIndex_of_absent hdeleted.1 hdeleted.2
    have habsent : ref.getHashIndex env path = none :=
      (getFileChanges_eq_deleted_iff.mp hchange).2
    rw [habsent]
    refine iff_of_true hindex fun hor => ?_
    rw [hchange] at hor
    exact hor.elim nofun nofun
  · have hdiffers : current.getHashIndex env path ≠ ref.getHashIndex env path := by
      intro heq
      have hnone := getFileChanges_eq_none_iff.mpr heq
      rcases hchange with hchange | hchange <;> nomatch hnone.symm.trans hchange
    have hfile : revertFile env newBinaryDoc current ref path =
        (ref.getFileAtRef env path).map fun content =>
          commitOf env.toHash newBinaryDoc path (some content) := by
      rw [revertFile]
      rcases hchange with hchange | hchange <;> rw [hchange]
    cases hcontent : ref.getFileAtRef env path with
    | none =>
        -- the file drops out and stays as the branch has it
        rw [hkept (by rw [hfile, hcontent]; rfl)]
        refine iff_of_false hdiffers fun hreads => ?_
        obtain ⟨content, hsome, -⟩ := hreads hchange
        rw [hcontent] at hsome
        nomatch hsome
    | some content =>
        rw [hcontent] at hfile
        have hstored :=
          (hread _ (hin _ hfile (by rcases hchange with h | h <;> rw [h] <;> nofun))).2
        rw [path_commitOf, hashes_commitOf] at hstored
        have hindexed : ∃ hash, ref.getHashIndex env path = some hash := by
          refine Option.ne_none_iff_exists'.mp fun hnone => ?_
          have hnot : changeBetween env current ref path ≠ some .deleted := by
            rcases hchange with h | h <;> rw [h] <;> nofun
          exact hnot (getFileChanges_eq_deleted_iff.mpr ⟨fun h => hdiffers (h.trans hnone.symm),
            hnone⟩)
        obtain ⟨hash, hhash⟩ := hindexed
        rw [BranchDoc.getHashIndex_of_hashesAt hstored
          (BranchDoc.shouldIgnore_of_getHashIndex hhash)]
        constructor
        · exact fun heq _ => ⟨content, hcontent, heq.symm⟩
        · intro hreads
          obtain ⟨found, hfound, heq⟩ := hreads hchange
          rw [hcontent] at hfound
          rw [heq, Option.some.inj hfound]

/-- What differs is a key of one of the documents. -/
theorem mem_changedFiles_iff (hcurrent : current.Valid) (href : ref.Valid) :
    path ∈ changedFiles env current ref ↔ changeBetween env current ref path ≠ none := by
  have hkeys : ∀ {doc : BranchDoc (List α) δ τ σ}, doc.Valid → path ∉ doc.keys →
      doc.getHashIndex env path = none := by
    intro doc hvalid hpath
    have hget := not_not.mp (mt (BranchDoc.mem_keys_iff hvalid).mpr hpath)
    refine BranchDoc.getHashIndex_of_absent ?_ ?_
    · rw [BranchDoc.contentAt, hget]
    · rw [BranchDoc.hashesAt, hget]
  rw [changedFiles, Finset.mem_filter, Finset.mem_union, and_iff_right_iff_imp]
  intro hchange
  by_contra hpath
  obtain ⟨hnot, hnot'⟩ := not_or.mp hpath
  exact hchange (getFileChanges_eq_none_iff.mpr ((hkeys hcurrent hnot).trans (hkeys href hnot').symm))

/-- The hash index of a branch is that of the ref. -/
def IndexIs (db : RevertDb α δ τ σ κ χ) (branch : κ) (ref : BranchDoc (List α) δ τ σ) : Prop :=
  ∃ doc, db.shadow branch = some doc ∧
    ∀ path, doc.getHashIndex env path = ref.getHashIndex env path

omit [DecidableEq δ] in
theorem indexIs_iff {db : RevertDb α δ τ σ κ χ} {branch : κ} {doc : BranchDoc (List α) δ τ σ}
    (hdoc : db.shadow branch = some doc) : IndexIs env db branch ref ↔
      ∀ path, doc.getHashIndex env path = ref.getHashIndex env path := by
  constructor
  · rintro ⟨found, hfound, hindex⟩
    obtain rfl : doc = found := Option.some.inj (hdoc.symm.trans hfound)
    exact hindex
  · exact fun hindex => ⟨doc, hdoc, hindex⟩

/-- Neither the branch nor its preview has changed since the preview was made. -/
structure StillAt (db db' later : RevertDb α δ τ σ κ χ) (branch preview : κ) : Prop where
  branch_eq : later.shadow branch = db.shadow branch
  preview_eq : later.shadow preview = db'.shadow preview
  meta_eq : later.branches preview = db'.branches preview

section Confirm

variable [DecidableEq κ] [DecidableEq χ] (getHeads : BranchDoc (List α) δ τ σ → Finset χ)
  (confirming : MergeOutcome)

/-- What a revert promises: the preview has the index of the ref, and so has the branch when
the preview is confirmed. -/
def Reverts [Max τ] [Max σ] (db' later : RevertDb α δ τ σ κ χ) (branch preview : κ)
    (ref : BranchDoc (List α) δ τ σ) : Prop :=
  IndexIs env db' preview ref ∧
    ∀ final, confirmRevertPreviewBranch getHeads confirming later preview = some final →
      IndexIs env final branch ref

/-- Where a confirmation comes to merge the canonical document of the branch, that document has
no change of another client that gives a file of the preview another hash. -/
def NothingElseMerged [Max τ] [Max σ] (later : RevertDb α δ τ σ κ χ) (branch preview : κ) : Prop :=
  ∀ sync doc, later.branchSyncStates branch = some sync → later.shadow preview = some doc →
    { sync with shadowDoc := some doc }.Merges getHeads → confirming = .ok →
      ∀ path, (doc.merge sync.canonicalDoc).getHashIndex env path = doc.getHashIndex env path

variable [SemilatticeSup τ] [SemilatticeSup σ]

omit [DecidableEq κ] [DecidableEq χ] in
/-- So it is where the branch was reconciled: its canonical document has nothing that its shadow
document does not have. -/
theorem nothingElseMerged_of_extends {db db' later : RevertDb α δ τ σ κ χ} {branch preview : κ}
    (hlater : StillAt db db' later branch preview) {final : BranchDoc (List α) δ τ σ}
    (hpreview : db'.shadow preview = some final)
    (hfinal : current.Extends final)
    (hreconciled : ∀ sync, later.branchSyncStates branch = some sync →
      sync.canonicalDoc.Extends current) :
    NothingElseMerged env getHeads confirming later branch preview := by
  intro sync doc hsync hdoc _ _ path
  obtain rfl : final = doc :=
    Option.some.inj (hpreview.symm.trans (hlater.preview_eq.symm.trans hdoc))
  rw [((hreconciled sync hsync).trans hfinal).merge_eq_left]

omit [DecidableEq κ] in
/-- Merging a canonical document that adds nothing leaves the shadow document. -/
theorem shadowDoc_tryReconcileBranch_of_extends {sync : RevertSync α δ τ σ χ}
    {doc : BranchDoc (List α) δ τ σ} (hdoc : sync.shadowDoc = some doc)
    (hextends : sync.canonicalDoc.Extends doc) :
    (sync.tryReconcileBranch getHeads confirming).1.shadowDoc = some doc := by
  unfold RevertSync.tryReconcileBranch
  split
  · rw [hdoc, Option.getD_some]
    cases confirming with
    | ok => exact congrArg some hextends.merge_eq_left
    | shadowFails => rfl
    | canonicalFails => exact congrArg some hextends.merge_eq_left
  · exact hdoc

omit [DecidableEq κ] in
/-- The preview is made with what is committed to the clone of the branch. -/
theorem shadowDoc_previewSync {actors : ℕ} (actor : Fin actors) {tracking committing : MergeOutcome}
    (hvalid : current.Valid) (hgrows : env.Grows) (entries : List (CommitEntry (List α) δ ω ι))
    {made : RevertSync α δ τ σ χ}
    (hmade : previewSync env actor getHeads tracking committing current entries = some made) :
    made.shadowDoc = some (current.commitEntries actor env.toNested entries).1 := by
  have hself : current.merge current = current := (BranchDoc.Extends.refl current).merge_eq
  have hmerges : RevertSync.Merges getHeads
      (⟨current, none, true, getHeads current, ∅⟩ : RevertSync α δ τ σ χ) :=
    ⟨rfl, fun hsame => nomatch hsame.2⟩
  rw [previewSync, RevertSync.tryReconcileBranch, if_pos hmerges] at hmade
  cases tracking with
  | ok =>
      simp only [Option.getD_none, hself] at hmade
      cases hmade
      exact shadowDoc_tryReconcileBranch_of_extends getHeads committing rfl
        (BranchDoc.extends_commitEntries actor env.toNested hvalid hgrows entries)
  | shadowFails => nomatch hmade
  | canonicalFails => nomatch hmade

/-- The preview that is made, and what the metadata has of it. -/
theorem shadow_of_createRevertPreviewBranch {actors : ℕ} (actor : Fin actors)
    {tracking committing : MergeOutcome} {db db' : RevertDb α δ τ σ κ χ} {branch preview : κ}
    {refPaths currentPaths order : List (List α)} (hshadow : db.shadow branch = some current)
    (hcurrent : current.Valid) (hgrows : env.Grows)
    (hcreate : createRevertPreviewBranch env actor getHeads tracking committing newBinaryDoc
      refPaths currentPaths order db branch preview ref = some db') :
    db'.shadow preview = some (current.commitEntries actor env.toNested
        (order.filterMap (revertFile env newBinaryDoc current ref))).1 ∧
      db'.branches preview = some ⟨some branch, true⟩ := by
  obtain ⟨sync, hsync, hdoc⟩ := Option.bind_eq_some_iff.mp hshadow
  rw [createRevertPreviewBranch, hsync] at hcreate
  simp only [hdoc] at hcreate
  split at hcreate
  · nomatch hcreate
  · split at hcreate
    · nomatch hcreate
    · split at hcreate
      · nomatch hcreate
      · obtain ⟨made, hmade, rfl⟩ := Option.map_eq_some_iff.mp hcreate
        refine ⟨?_, Function.update_self _ _ _⟩
        refine (RevertDb.shadow_setSync_self _ preview made).trans ?_
        exact shadowDoc_previewSync env getHeads actor hcurrent hgrows _ hmade

/-- A confirmation merges the preview into the branch that it was forked from, and reconciles. -/
theorem confirmRevertPreviewBranch_of_sync {db : RevertDb α δ τ σ κ χ} {branch preview : κ}
    (hmeta : db.branches preview = some ⟨some branch, true⟩)
    {source : BranchDoc (List α) δ τ σ} (hsource : db.shadow preview = some source)
    {sync : RevertSync α δ τ σ χ} (hsync : db.branchSyncStates branch = some sync)
    (hdoc : sync.shadowDoc = some current) :
    confirmRevertPreviewBranch getHeads confirming db preview =
      match RevertSync.tryReconcileBranch getHeads
          { sync with shadowDoc := some (current.merge source) } confirming with
      | (_, false) => none
      | (reconciled, true) => some (db.setSync branch reconciled) := by
  rw [confirmRevertPreviewBranch, hmeta]
  simp only [hsource, hsync, hdoc]

/-- **A revert preview that is made, and the branch once it is confirmed, have the files of
the ref exactly when every file that changes can be read there and reads as indexed, and the
confirmation merges no other change of a file.** -/
theorem reverts_iff {actors : ℕ} (actor : Fin actors) {tracking committing : MergeOutcome}
    {db db' later : RevertDb α δ τ σ κ χ} {branch preview : κ}
    {refPaths currentPaths order : List (List α)} (hshadow : db.shadow branch = some current)
    (hcurrent : current.Valid) (href : ref.Valid) (hnested : env.HydratesBack)
    (hgrows : env.Grows) (hnodup : order.Nodup)
    (horder : ∀ path, path ∈ order ↔ path ∈ changedFiles env current ref)
    (hcreate : createRevertPreviewBranch env actor getHeads tracking committing newBinaryDoc
      refPaths currentPaths order db branch preview ref = some db')
    (hlater : StillAt db db' later branch preview) :
    Reverts env getHeads confirming db' later branch preview ref ↔
      (∀ path, ReadsAsIndexed env current ref path) ∧
        NothingElseMerged env getHeads confirming later branch preview := by
  let final := (current.commitEntries actor env.toNested
    (order.filterMap (revertFile env newBinaryDoc current ref))).1
  obtain ⟨hpreview, hmeta⟩ : db'.shadow preview = some final ∧
      db'.branches preview = some ⟨some branch, true⟩ :=
    shadow_of_createRevertPreviewBranch env newBinaryDoc getHeads actor hshadow hcurrent hgrows
      hcreate
  have hiff : ∀ path, final.getHashIndex env path = ref.getHashIndex env path ↔
      ReadsAsIndexed env current ref path :=
    getHashIndex_commitEntries_iff env newBinaryDoc actor hcurrent hnested hnodup
      fun path hchange => (horder path).mpr ((mem_changedFiles_iff env hcurrent href).mpr hchange)
  have hmerge : current.merge final = final :=
    (BranchDoc.extends_commitEntries actor env.toNested hcurrent hgrows _).merge_eq
  rw [Reverts, indexIs_iff env hpreview, ← forall_congr' hiff]
  refine and_congr_right fun hindex => ?_
  obtain ⟨sync, hsync, hdoc⟩ := Option.bind_eq_some_iff.mp (hlater.branch_eq.trans hshadow)
  have hsource : later.shadow preview = some final := hlater.preview_eq.trans hpreview
  have hconfirm := confirmRevertPreviewBranch_of_sync getHeads confirming
    (hlater.meta_eq.trans hmeta) hsource hsync hdoc
  rw [hmerge] at hconfirm
  let merged : RevertSync α δ τ σ χ := { sync with shadowDoc := some final }
  by_cases hmerges : merged.Merges getHeads
  · cases confirming with
    | ok =>
        rw [RevertSync.tryReconcileBranch, if_pos hmerges] at hconfirm
        constructor
        · intro hconfirmed found doc hfound hdoc' _ _ path
          obtain rfl := Option.some.inj (hsync.symm.trans hfound)
          obtain rfl := Option.some.inj (hsource.symm.trans hdoc')
          have hsame := (indexIs_iff env (RevertDb.shadow_setSync_self later branch _)).mp
            (hconfirmed _ hconfirm)
          exact (hsame path).trans (hindex path).symm
        · intro hnothing confirmed hcall
          obtain rfl := Option.some.inj (hconfirm.symm.trans hcall)
          exact (indexIs_iff env (RevertDb.shadow_setSync_self later branch _)).mpr fun path =>
            (hnothing sync final hsync hsource hmerges rfl path).trans (hindex path)
    | shadowFails | canonicalFails =>
        rw [RevertSync.tryReconcileBranch, if_pos hmerges] at hconfirm
        exact iff_of_true (fun _ hcall => nomatch hconfirm.symm.trans hcall)
          (fun _ _ _ _ _ hok => nomatch hok)
  · -- the branch is reconciled as it is
    rw [RevertSync.tryReconcileBranch, if_neg hmerges] at hconfirm
    refine iff_of_true (fun confirmed hcall => ?_) ?_
    · obtain rfl := Option.some.inj (hconfirm.symm.trans hcall)
      exact ⟨final, RevertDb.shadow_setSync_self later branch merged, hindex⟩
    · intro found doc hfound hdoc' hmerges'
      obtain rfl := Option.some.inj (hsync.symm.trans hfound)
      obtain rfl := Option.some.inj (hsource.symm.trans hdoc')
      exact absurd hmerges' hmerges

end Confirm

end Revert

/-! ## A text goes back -/

/-- The ids of the operations of a document, for its heads. -/
def idsOf (doc : BranchDoc (List ℕ) ℕ (ℕ ×ₗ List Char) (ℕ ×ₗ ℕ)) : Finset ℕ :=
  doc.ops.image Op.id

/-- A branch that was reconciled with a canonical document. -/
def reconciledWith (doc canonical : BranchDoc (List ℕ) ℕ (ℕ ×ₗ List Char) (ℕ ×ₗ ℕ)) :
    RevertSync ℕ ℕ (ℕ ×ₗ List Char) (ℕ ×ₗ ℕ) ℕ :=
  ⟨canonical, some doc, true, idsOf canonical, idsOf canonical⟩

/-- A project of one branch, without previews. -/
def onlyBranch (doc : BranchDoc (List ℕ) ℕ (ℕ ×ₗ List Char) (ℕ ×ₗ ℕ)) :
    RevertDb ℕ ℕ (ℕ ×ₗ List Char) (ℕ ×ₗ ℕ) ℕ ℕ :=
  (⟨fun _ => none, true, fun _ => none⟩ : RevertDb ..).setSync 0 (reconciledWith doc doc)

theorem stillAt_setSync (doc canonical : BranchDoc (List ℕ) ℕ (ℕ ×ₗ List Char) (ℕ ×ₗ ℕ))
    (made : RevertDb ℕ ℕ (ℕ ×ₗ List Char) (ℕ ×ₗ ℕ) ℕ ℕ) :
    StillAt (onlyBranch doc) made (made.setSync 0 (reconciledWith doc canonical)) 0 1 where
  branch_eq := RevertDb.shadow_setSync_self made 0 (reconciledWith doc canonical)
  preview_eq := RevertDb.shadow_setSync_of_ne made 0 _ Nat.one_ne_zero
  meta_eq := rfl

/-- A text at path `[0]`. -/
def writtenText : BranchDoc (List ℕ) ℕ (ℕ ×ₗ List Char) (ℕ ×ₗ ℕ) :=
  (lastWritten.emptyDoc.commitEntries (⟨0, Nat.one_pos⟩ : Fin 1) lastWritten [.text [0] "a".toList 1]).1

/-- Another text over it. -/
def overwrittenText : BranchDoc (List ℕ) ℕ (ℕ ×ₗ List Char) (ℕ ×ₗ ℕ) :=
  (writtenText.commitEntries (⟨0, Nat.one_pos⟩ : Fin 1) lastWritten [.text [0] "bb".toList 2]).1

/-- A text goes back to the one that it was written over, in the preview and in the branch. -/
theorem reverts_overwritten : ∃ db' final,
    createRevertPreviewBranch hashedBySize (0 : Fin 1) idsOf .ok .ok (fun _ => 0) [[0]] [[0]] [[0]]
        (onlyBranch overwrittenText) 0 1 writtenText = some db' ∧
      confirmRevertPreviewBranch idsOf .ok
        (db'.setSync 0 (reconciledWith overwrittenText overwrittenText)) 1 = some final ∧
      Reverts hashedBySize idsOf .ok db'
        (db'.setSync 0 (reconciledWith overwrittenText overwrittenText)) 0 1 writtenText := by
  have href : writtenText.Valid := (emptyDoc_valid lastWritten).of_commitEntries 0 lastWritten _
  have hcurrent : overwrittenText.Valid := href.of_commitEntries 0 lastWritten _
  have hshadow : (onlyBranch overwrittenText).shadow 0 = some overwrittenText :=
    rfl
  have hchanged : changedFiles hashedBySize overwrittenText writtenText = {[0]} := by
    decide +kernel
  obtain ⟨db', hcreate⟩ := Option.isSome_iff_exists.mp (show
    (createRevertPreviewBranch hashedBySize (0 : Fin 1) idsOf .ok .ok (fun _ => 0) [[0]] [[0]]
      [[0]] (onlyBranch overwrittenText) 0 1 writtenText).isSome by decide +kernel)
  obtain ⟨final, hconfirm⟩ := Option.isSome_iff_exists.mp (show
    ((createRevertPreviewBranch hashedBySize (0 : Fin 1) idsOf .ok .ok (fun _ => 0) [[0]] [[0]]
      [[0]] (onlyBranch overwrittenText) 0 1 writtenText).bind fun db' =>
        confirmRevertPreviewBranch idsOf .ok
          (db'.setSync 0 (reconciledWith overwrittenText overwrittenText)) 1).isSome by decide +kernel)
  rw [hcreate, Option.bind_some] at hconfirm
  have hlater := stillAt_setSync overwrittenText overwrittenText db'
  refine ⟨db', final, hcreate, hconfirm, (reverts_iff hashedBySize (fun _ => 0) idsOf .ok 0
    hshadow hcurrent href lastWritten_hydratesBack lastWritten_grows (List.nodup_singleton _) ?_
    hcreate hlater).mpr ⟨?_, ?_⟩⟩
  · intro path
    rw [hchanged, List.mem_singleton, Finset.mem_singleton]
  · intro path hchange
    have hmem : path ∈ changedFiles hashedBySize overwrittenText writtenText := by
      apply (mem_changedFiles_iff hashedBySize hcurrent href).mpr
      rcases hchange with hchange | hchange <;> rw [hchange] <;> nofun
    rw [hchanged, Finset.mem_singleton] at hmem
    subst hmem
    exact ⟨.string "a".toList, by decide +kernel, by decide +kernel⟩
  · apply nothingElseMerged_of_extends hashedBySize idsOf .ok hlater
      (shadow_of_createRevertPreviewBranch hashedBySize (fun _ => 0) idsOf 0 hshadow hcurrent
        lastWritten_grows hcreate).1
      (BranchDoc.extends_commitEntries 0 lastWritten hcurrent lastWritten_grows _)
    intro sync hsync
    rw [RevertDb.branchSyncStates_setSync_self] at hsync
    obtain rfl := Option.some.inj hsync
    exact .refl _

/-- The index of the first text is made when the second one is there: the hash of the first
comes beside the second. -/
def staleHash : BranchDoc (List ℕ) ℕ (ℕ ×ₗ List Char) (ℕ ×ₗ ℕ) :=
  BranchDoc.reinsertHashes (⟨0, Nat.one_pos⟩ : Fin 1) hashedBySize (unhashedTexts ["a".toList])
    (unhashedTexts ["a".toList, "bb".toList]) [[0]]

/-- The branch goes on from there with a third text. -/
def afterStaleHash : BranchDoc (List ℕ) ℕ (ℕ ×ₗ List Char) (ℕ ×ₗ ℕ) :=
  (staleHash.commitEntries (⟨0, Nat.one_pos⟩ : Fin 1) lastWritten [.text [0] "ccc".toList 3]).1

theorem staleHash_valid : staleHash.Valid :=
  (unhashedTexts_valid ["a".toList]).reinsertHashes 0 hashedBySize
    (unhashedTexts_valid ["a".toList, "bb".toList])
    (Finset.Subset.refl (unhashedTexts []).ops) [[0]]

/-- The preview of a stale hash has the hash of what was committed to it. -/
theorem not_reverts_staleHash :
    ¬ ∀ current ref : BranchDoc (List ℕ) ℕ (ℕ ×ₗ List Char) (ℕ ×ₗ ℕ),
      current.Valid → ref.Valid → ref.Extends current →
      ∀ order : List (List ℕ), order.Nodup →
      (∀ path, path ∈ order ↔ path ∈ changedFiles hashedBySize current ref) → ∀ db' later,
      createRevertPreviewBranch hashedBySize (0 : Fin 1) idsOf .ok .ok (fun _ => 0) [[0]] [[0]]
        order (onlyBranch current) 0 1 ref = some db' →
      StillAt (onlyBranch current) db' later 0 1 →
      Reverts hashedBySize idsOf .ok db' later 0 1 ref := by
  intro hall
  have hchanged : changedFiles hashedBySize afterStaleHash staleHash = {[0]} := by
    decide +kernel
  obtain ⟨db', hcreate⟩ := Option.isSome_iff_exists.mp (show
    (createRevertPreviewBranch hashedBySize (0 : Fin 1) idsOf .ok .ok (fun _ => 0) [[0]] [[0]]
      [[0]] (onlyBranch afterStaleHash) 0 1 staleHash).isSome by decide +kernel)
  have hcommitted : (createRevertPreviewBranch hashedBySize (0 : Fin 1) idsOf .ok .ok (fun _ => 0)
      [[0]] [[0]] [[0]] (onlyBranch afterStaleHash) 0 1 staleHash).map
        (fun db => (db.shadow 1).map fun doc => doc.getHashIndex hashedBySize [0]) =
      some (some (some 2)) := by decide +kernel
  have hreverts := hall afterStaleHash staleHash
    (staleHash_valid.of_commitEntries 0 lastWritten _) staleHash_valid
    (BranchDoc.extends_commitEntries 0 lastWritten staleHash_valid lastWritten_grows _) [[0]]
    (List.nodup_singleton _)
    (fun path => by rw [hchanged, List.mem_singleton, Finset.mem_singleton]) db'
    (db'.setSync 0 (reconciledWith afterStaleHash afterStaleHash)) hcreate
    (stillAt_setSync afterStaleHash afterStaleHash db')
  obtain ⟨⟨doc, hdoc, hindex⟩, -⟩ := hreverts
  rw [hcreate, Option.map_some, hdoc, Option.map_some, hindex [0]] at hcommitted
  have hstale : staleHash.getHashIndex hashedBySize [0] = some 1 := by decide +kernel
  rw [hstale] at hcommitted
  nomatch hcommitted

end Backstitch
