/-
# Merging a branch

`Driver::merge_branch` merges the shadow document of a branch into that of another one,
commits what it knows of the merge, reconciles the target and then deletes the source from
the branches metadata, whatever has come of the merge.  The branch states may be cleared
while it waits.
-/

import Backstitch.Branches.ForkPoints
import Backstitch.Branches.SyncStates
import Backstitch.Project.ProjectStarter

namespace Backstitch

universe u v w

/-- The part of the branch database that a merge works on. -/
structure MergeDb (κ : Type u) (ι : Type v) (χ : Type w) where
  branchSyncStates : κ → Option (BranchSyncState ι χ)
  canonical : κ → Finset χ
  /-- The branches as they were ingested last. -/
  metadataState : Option (κ → Option (Branch κ χ))
  /-- The branches of the metadata document. -/
  branches : κ → Option (Branch κ χ)
  requestedCheckout : Option κ

/-- How `remove_branch_from_meta` turns out. -/
inductive RemovalOutcome
  | removed
  /-- The metadata document cannot be hydrated, and the thread panics. -/
  | hydrateFails
  /-- The document cannot be reconciled, which is not looked at. -/
  | reconcileFails
  deriving DecidableEq

/-- What a merge meets. -/
structure MergeRun (κ : Type u) (χ : Type w) where
  /-- The changes that the merge of the documents does not take over, because it fails. -/
  dropped : Finset χ
  /-- The change that is made for the branch and the heads of a `MergeMetadata`. -/
  dummy : κ → Finset χ → χ
  clearsBeforeDummy : Bool
  clearsBeforeReconcile : Bool
  reconcile : MergeOutcome
  removal : RemovalOutcome

namespace MergeDb

variable {κ : Type u} {ι : Type v} {χ : Type w} [DecidableEq κ] [DecidableEq ι] [DecidableEq χ]
  (run : MergeRun κ χ) (db : MergeDb κ ι χ) (source target : κ)

def getBranchState (branch : κ) : Except (DbError κ) (Branch κ χ) :=
  match db.metadataState with
  | none => .error .noMetadataState
  | some branches =>
      match branches branch with
      | none => .error (.noBranch branch)
      | some state => .ok state

/-- The document that `with_shadow_document` passes on. -/
def withShadowDocument (branch : κ) : Except (DbError κ) (Finset χ) :=
  match db.branchSyncStates branch with
  | none => .error (.noBranch branch)
  | some sync =>
      match sync.shadowDoc with
      | none => .error (.other "shadow doc isn't initialized")
      | some doc => .ok doc

def setSync (branch : κ) (sync : BranchSyncState ι χ) : MergeDb κ ι χ :=
  { db with branchSyncStates := Function.update db.branchSyncStates branch (some sync) }

/-- Write a shadow document that is there. -/
def setShadow (branch : κ) (doc : Finset χ) : MergeDb κ ι χ :=
  match db.branchSyncStates branch with
  | some sync => db.setSync branch { sync with shadowDoc := some doc }
  | none => db

/-- `clear_branch_states`, if it is called. -/
def clearIf (clears : Bool) : MergeDb κ ι χ :=
  if clears then { db with branchSyncStates := fun _ => none } else db

/-- The branch and the heads of the `MergeMetadata`, for the merge of a preview whose
original is there.  A fork point that is not there makes it panic. -/
def mergeMetadata (sourceState : Branch κ χ) : Option (Option (κ × Finset χ)) :=
  match sourceState.forkedFrom with
  | none => none
  | some forkedFrom =>
      if sourceState.mergeInto.isSome then
        match db.getBranchState forkedFrom.branch with
        | .ok original => original.forkedFrom.map fun ref => some (forkedFrom.branch, ref.heads)
        | .error _ => some none
      else some none

/-- The dummy change is committed to the target. -/
def commitDummy : Option (κ × Finset χ) → MergeDb κ ι χ × Option (DbError κ)
  | none => (db, none)
  | some (merged, heads) =>
      match db.withShadowDocument target with
      | .error error => (db, some error)
      | .ok doc => (db.setShadow target (insert (run.dummy merged heads) doc), none)

/-- The target is reconciled. -/
def reconcileTarget : MergeDb κ ι χ × Option (DbError κ) :=
  match db.branchSyncStates target with
  | none => (db, some (.noBranch target))
  | some sync =>
      match sync.tryReconcileBranch (db.canonical target) run.reconcile with
      | (sync, canonical, ok) =>
          ({ db.setSync target sync with
              canonical := Function.update db.canonical target canonical },
            if ok then none else some (.other "Automerge"))

/-- What a merge does once the shadow documents are merged. -/
def finishMerge (metadata : Option (κ × Finset χ)) : MergeDb κ ι χ × Option (DbError κ) :=
  match (db.clearIf run.clearsBeforeDummy).commitDummy run target metadata with
  | (committed, some error) => (committed, some error)
  | (committed, none) => (committed.clearIf run.clearsBeforeReconcile).reconcileTarget run target

/-- `BranchDb::merge_branch`. -/
def mergeBranch : Option (MergeDb κ ι χ × Option (DbError κ)) :=
  match db.getBranchState source with
  | .error error => some (db, some error)
  | .ok sourceState =>
      if source = target then some (db, none)
      else
        match db.withShadowDocument source, db.withShadowDocument target with
        | .error error, _ => some (db, some error)
        | .ok _, .error error => some (db, some error)
        | .ok sourceDoc, .ok targetDoc =>
            let merged := db.setShadow target (targetDoc ∪ sourceDoc \ run.dropped)
            (merged.mergeMetadata sourceState).map (merged.finishMerge run target)

/-- `delete_branch`. -/
def deleteBranch (branch : κ) : MergeDb κ ι χ × Option (DbError κ) :=
  match db.metadataState with
  | none => (db, some .noMetadataState)
  | some _ =>
      match run.removal with
      | .removed => ({ db with branches := Function.update db.branches branch none }, none)
      | .hydrateFails => (db, some (.other "there was an issue with threading"))
      | .reconcileFails => (db, none)

def requestCheckout (branch : κ) : MergeDb κ ι χ := { db with requestedCheckout := some branch }

/-- `Driver::merge_branch`; a panic of the merge ends it. -/
def driverMergeBranch : Option (MergeDb κ ι χ) :=
  (db.mergeBranch run source target).map fun result =>
    (result.1.deleteBranch run source).1.requestCheckout target

/-! ## When the work of the source is kept -/

def shadowDoc (branch : κ) : Option (Finset χ) :=
  (db.branchSyncStates branch).bind BranchSyncState.shadowDoc

def Listed (branch : κ) : Prop := (db.branches branch).isSome

/-- Every change of the source's shadow document is in the target's afterwards. -/
def Delivers (after : MergeDb κ ι χ) : Prop :=
  ∀ doc, db.shadowDoc source = some doc → ∃ merged, after.shadowDoc target = some merged ∧
    doc ⊆ merged

/-- Once the merge has returned, the changes of the source are in the target, or the source is
still listed; and the target is still listed if it was. -/
def KeepsWork : Prop :=
  ∀ after, db.driverMergeBranch run source target = some after →
    (db.Delivers source target after ∨ after.Listed source) ∧
      (db.Listed target → after.Listed target)

/-- A document with its dummy change. -/
def withDummy (metadata : Option (κ × Finset χ)) (doc : Finset χ) : Finset χ :=
  match metadata with
  | some (merged, heads) => insert (run.dummy merged heads) doc
  | none => doc

/-- What the merge writes to the target before it is reconciled. -/
def written (sourceState : Branch κ χ) (sourceDoc targetDoc : Finset χ) : Finset χ :=
  withDummy run (db.mergeMetadata sourceState).join (targetDoc ∪ sourceDoc \ run.dropped)

/-- A change is written to the target, or the reconcile takes it over from its canonical
document. -/
def Arrives (sync : BranchSyncState ι χ) (written : Finset χ) (change : χ) : Prop :=
  change ∈ written ∨
    change ∈ db.canonical target ∧ run.reconcile ≠ .shadowFails ∧
      { sync with shadowDoc := some written }.Merges

/-- The source is deleted from the metadata. -/
def Removes : Prop := db.metadataState.isSome ∧ run.removal = .removed

/-- The ways in which the work of the source is kept. -/
inductive Survives : Prop
  /-- A fork point is missing, and the merge panics. -/
  | panics {sourceState : Branch κ χ} {sourceDoc targetDoc : Finset χ} (hne : source ≠ target)
      (hstate : db.getBranchState source = .ok sourceState)
      (hsource : db.shadowDoc source = some sourceDoc)
      (htarget : db.shadowDoc target = some targetDoc)
      (hmissing : db.mergeMetadata sourceState = none)
  | itself (heq : source = target) (hkept : db.Listed target → ¬ db.Removes run)
  | listed (hne : source ≠ target) (hlisted : db.Listed source) (hkept : ¬ db.Removes run)
  | absent (hne : source ≠ target) (habsent : db.shadowDoc source = none)
  /-- The metadata does not know the source, and the target had its changes before. -/
  | known {error : DbError κ} {sourceDoc targetDoc : Finset χ} (hne : source ≠ target)
      (hstate : db.getBranchState source = .error error)
      (hsource : db.shadowDoc source = some sourceDoc)
      (htarget : db.shadowDoc target = some targetDoc) (hsubset : sourceDoc ⊆ targetDoc)
  | merged {sourceState : Branch κ χ} {sourceDoc targetDoc : Finset χ} {sync : BranchSyncState ι χ}
      (hne : source ≠ target) (hstate : db.getBranchState source = .ok sourceState)
      (hsource : db.shadowDoc source = some sourceDoc)
      (hsync : db.branchSyncStates target = some sync) (htarget : sync.shadowDoc = some targetDoc)
      (hclears : run.clearsBeforeDummy = false ∧ run.clearsBeforeReconcile = false)
      (harrives : ∀ change ∈ sourceDoc,
        db.Arrives run target sync (db.written run sourceState sourceDoc targetDoc) change)

/-! ## What the steps leave -/

section Frames

variable {run db source target} {branch : κ} {doc targetDoc : Finset χ} {sync : BranchSyncState ι χ}
  {metadata : Option (κ × Finset χ)}

omit [DecidableEq κ] [DecidableEq ι] [DecidableEq χ] in
theorem withShadowDocument_of_some (hdoc : db.shadowDoc branch = some doc) :
    db.withShadowDocument branch = .ok doc := by
  obtain ⟨sync, hsync, hshadow⟩ := Option.bind_eq_some_iff.mp hdoc
  simp only [withShadowDocument, hsync, hshadow]

omit [DecidableEq κ] [DecidableEq ι] [DecidableEq χ] in
theorem withShadowDocument_of_none (hdoc : db.shadowDoc branch = none) :
    ∃ error, db.withShadowDocument branch = .error error := by
  rw [shadowDoc] at hdoc
  cases hsync : db.branchSyncStates branch with
  | none => exact ⟨.noBranch branch, by simp only [withShadowDocument, hsync]⟩
  | some sync =>
      rw [hsync] at hdoc
      have hshadow : sync.shadowDoc = none := hdoc
      exact ⟨.other "shadow doc isn't initialized", by
        simp only [withShadowDocument, hsync, hshadow]⟩

/-- The metadata is what it was. -/
def SameMetadata (db after : MergeDb κ ι χ) : Prop :=
  after.metadataState = db.metadataState ∧ after.branches = db.branches

omit [DecidableEq ι] [DecidableEq χ] in
theorem sameMetadata_setShadow : SameMetadata db (db.setShadow branch doc) := by
  rw [setShadow]
  split
  · exact ⟨rfl, rfl⟩
  · exact ⟨rfl, rfl⟩

omit [DecidableEq κ] [DecidableEq ι] [DecidableEq χ] in
theorem sameMetadata_clearIf (clears : Bool) : SameMetadata db (db.clearIf clears) := by
  rw [clearIf]
  split
  · exact ⟨rfl, rfl⟩
  · exact ⟨rfl, rfl⟩

omit [DecidableEq ι] in
theorem sameMetadata_commitDummy : SameMetadata db (db.commitDummy run target metadata).1 := by
  rw [commitDummy.eq_def]
  split
  · exact ⟨rfl, rfl⟩
  · split
    · exact ⟨rfl, rfl⟩
    · exact sameMetadata_setShadow

theorem sameMetadata_reconcileTarget : SameMetadata db (db.reconcileTarget run target).1 := by
  rw [reconcileTarget]
  split
  · exact ⟨rfl, rfl⟩
  · exact ⟨rfl, rfl⟩

omit [DecidableEq κ] [DecidableEq ι] [DecidableEq χ] in
theorem SameMetadata.trans {second third : MergeDb κ ι χ} (hfirst : SameMetadata db second)
    (hsecond : SameMetadata second third) : SameMetadata db third :=
  ⟨hsecond.1.trans hfirst.1, hsecond.2.trans hfirst.2⟩

theorem sameMetadata_finishMerge : SameMetadata db (db.finishMerge run target metadata).1 := by
  have hcommitted : SameMetadata db
      ((db.clearIf run.clearsBeforeDummy).commitDummy run target metadata).1 :=
    (sameMetadata_clearIf _).trans sameMetadata_commitDummy
  rw [finishMerge]
  split
  case h_1 committed error heq =>
      rw [heq] at hcommitted
      exact hcommitted
  case h_2 committed heq =>
      rw [heq] at hcommitted
      exact hcommitted.trans ((sameMetadata_clearIf _).trans sameMetadata_reconcileTarget)

omit [DecidableEq κ] [DecidableEq ι] [DecidableEq χ] in
theorem mergeMetadata_eq {after : MergeDb κ ι χ} (hsame : SameMetadata db after)
    (sourceState : Branch κ χ) :
    after.mergeMetadata sourceState = db.mergeMetadata sourceState := by
  simp only [mergeMetadata, getBranchState, hsame.1]

/-! ## The shadow document of the target -/

omit [DecidableEq ι] [DecidableEq χ] in
theorem branchSyncStates_setShadow (hsync : db.branchSyncStates branch = some sync) :
    (db.setShadow branch doc).branchSyncStates branch =
      some { sync with shadowDoc := some doc } := by
  rw [setShadow, hsync]
  exact Function.update_self _ _ _

omit [DecidableEq ι] [DecidableEq χ] in
theorem canonical_setShadow : (db.setShadow branch doc).canonical = db.canonical := by
  rw [setShadow]
  split
  · rfl
  · rfl

theorem shadowDoc_tryReconcileBranch {canonical : Finset χ} (outcome : MergeOutcome)
    (hdoc : sync.shadowDoc = some doc) :
    (sync.tryReconcileBranch canonical outcome).1.shadowDoc =
      some (if sync.Merges ∧ outcome ≠ .shadowFails then doc ∪ canonical else doc) := by
  unfold BranchSyncState.tryReconcileBranch
  by_cases hmerges : sync.Merges
  · cases outcome with
    | ok => simp [hmerges, BranchSyncState.merged, hdoc]
    | shadowFails => simp [hmerges, hdoc]
    | canonicalFails => simp [hmerges, BranchSyncState.merged, hdoc]
  · simp [hmerges, hdoc]

variable (run) in
theorem shadowDoc_reconcileTarget (hsync : db.branchSyncStates target = some sync)
    (hdoc : sync.shadowDoc = some doc) :
    (db.reconcileTarget run target).1.shadowDoc target =
      some (if sync.Merges ∧ run.reconcile ≠ .shadowFails then doc ∪ db.canonical target
        else doc) := by
  rw [← shadowDoc_tryReconcileBranch run.reconcile hdoc]
  simp [reconcileTarget, hsync, shadowDoc, setSync]

variable (run metadata) in
omit [DecidableEq ι] in
/-- The dummy change is written, and the canonical documents stay. -/
theorem commitDummy_eq (hsync : db.branchSyncStates target = some sync)
    (hdoc : sync.shadowDoc = some doc) :
    ∃ committed, db.commitDummy run target metadata = (committed, none) ∧
      committed.canonical = db.canonical ∧
      committed.branchSyncStates target =
        some { sync with shadowDoc := some (withDummy run metadata doc) } := by
  cases metadata with
  | none => exact ⟨db, rfl, rfl, by rw [hsync, withDummy, ← hdoc]⟩
  | some entry =>
      have hshadow : db.shadowDoc target = some doc := by rw [shadowDoc, hsync]; exact hdoc
      refine ⟨db.setShadow target (insert (run.dummy entry.1 entry.2) doc), ?_,
        canonical_setShadow, branchSyncStates_setShadow hsync⟩
      simp only [commitDummy, withShadowDocument_of_some hshadow]

variable (metadata) in
/-- Which changes are in the target once the merge has returned. -/
theorem shadowDoc_finishMerge (hsync : db.branchSyncStates target = some sync)
    (hdoc : sync.shadowDoc = some doc)
    (hclears : run.clearsBeforeDummy = false ∧ run.clearsBeforeReconcile = false) :
    ∃ final, (db.finishMerge run target metadata).1.shadowDoc target = some final ∧
      ∀ change, change ∈ final ↔
        db.Arrives run target sync (withDummy run metadata doc) change := by
  obtain ⟨committed, hcommitted, hcanonical, hstate⟩ :=
    commitDummy_eq run metadata hsync hdoc
  have hfinish : db.finishMerge run target metadata = committed.reconcileTarget run target := by
    simp only [finishMerge, clearIf, hclears.1, hclears.2, Bool.false_eq_true, if_false, hcommitted]
  have hfinal := shadowDoc_reconcileTarget run hstate rfl
  rw [← hfinish] at hfinal
  refine ⟨_, hfinal, fun change => ?_⟩
  · rw [hcanonical, Arrives]
    split
    case isTrue htakes =>
        rw [Finset.mem_union]
        exact or_congr_right ⟨fun hmem => ⟨hmem, htakes.2, htakes.1⟩, fun hmem => hmem.1⟩
    case isFalse htakes =>
        exact ⟨.inl, fun harrives =>
          harrives.resolve_right fun hmem => htakes ⟨hmem.2.2, hmem.2.1⟩⟩

theorem reconcileTarget_of_none (hnone : db.branchSyncStates target = none) :
    db.reconcileTarget run target = (db, some (.noBranch target)) := by
  rw [reconcileTarget, hnone]

omit [DecidableEq ι] in
theorem branchSyncStates_commitDummy_of_none (hnone : db.branchSyncStates target = none) :
    (db.commitDummy run target metadata).1.branchSyncStates target = none := by
  cases metadata with
  | none => exact hnone
  | some entry => simp only [commitDummy, withShadowDocument, hnone]

omit [DecidableEq κ] [DecidableEq ι] [DecidableEq χ] in
theorem branchSyncStates_clearIf_of_none (hnone : db.branchSyncStates branch = none)
    (clears : Bool) : (db.clearIf clears).branchSyncStates branch = none := by
  cases clears with
  | true => rfl
  | false => exact hnone

omit [DecidableEq κ] [DecidableEq ι] [DecidableEq χ] in
theorem shadowDoc_of_none (hnone : db.branchSyncStates branch = none) :
    db.shadowDoc branch = none := by
  rw [shadowDoc, hnone]
  rfl

/-- Nothing is left in the target if the branch states are cleared. -/
theorem shadowDoc_finishMerge_of_clears (hsync : db.branchSyncStates target = some sync)
    (hdoc : sync.shadowDoc = some doc)
    (hclears : ¬ (run.clearsBeforeDummy = false ∧ run.clearsBeforeReconcile = false)) :
    (db.finishMerge run target metadata).1.shadowDoc target = none := by
  rw [finishMerge]
  cases hdummy : run.clearsBeforeDummy with
  | true =>
      have hnone : ((db.clearIf true).commitDummy run target metadata).1.branchSyncStates target =
          none := branchSyncStates_commitDummy_of_none rfl
      split
      case h_1 committed error heq =>
          rw [heq] at hnone
          exact shadowDoc_of_none hnone
      case h_2 committed heq =>
          rw [heq] at hnone
          rw [reconcileTarget_of_none (branchSyncStates_clearIf_of_none hnone _)]
          exact shadowDoc_of_none (branchSyncStates_clearIf_of_none hnone _)
  | false =>
      obtain ⟨committed, hcommitted, -, -⟩ := commitDummy_eq run metadata hsync hdoc
      have hreconcile : run.clearsBeforeReconcile = true := by simpa [hdummy] using hclears
      have hnone : (committed.clearIf true).branchSyncStates target = none := rfl
      simp only [clearIf, Bool.false_eq_true, if_false, hcommitted]
      rw [hreconcile, if_pos rfl, reconcileTarget_of_none rfl]
      exact shadowDoc_of_none rfl

end Frames

/-! ## What comes of a merge -/

section Outcome

variable {run db source target} {sourceState : Branch κ χ} {sourceDoc targetDoc : Finset χ}
  {sync : BranchSyncState ι χ} {after : MergeDb κ ι χ} {error : Option (DbError κ)}

theorem mergeBranch_of_error {error : DbError κ}
    (hstate : db.getBranchState source = .error error) :
    db.mergeBranch run source target = some (db, some error) := by
  simp only [mergeBranch, hstate]

theorem mergeBranch_self (hstate : db.getBranchState source = .ok sourceState) :
    db.mergeBranch run source source = some (db, none) := by
  simp only [mergeBranch, hstate, if_true]

/-- Without one of the two documents there is nothing to merge. -/
theorem mergeBranch_of_missing (hstate : db.getBranchState source = .ok sourceState)
    (hne : source ≠ target) (hmissing : db.shadowDoc source = none ∨ db.shadowDoc target = none) :
    ∃ error, db.mergeBranch run source target = some (db, some error) := by
  cases hsource : db.shadowDoc source with
  | none =>
      obtain ⟨error, herror⟩ := withShadowDocument_of_none hsource
      exact ⟨error, by simp only [mergeBranch, hstate, if_neg hne, herror]⟩
  | some sourceDoc =>
      have htarget := hmissing.resolve_left (by rw [hsource]; exact Option.some_ne_none _)
      obtain ⟨error, herror⟩ := withShadowDocument_of_none htarget
      exact ⟨error, by
        simp only [mergeBranch, hstate, if_neg hne, withShadowDocument_of_some hsource, herror]⟩

variable (run) in
theorem mergeBranch_of_docs (hstate : db.getBranchState source = .ok sourceState)
    (hne : source ≠ target) (hsource : db.shadowDoc source = some sourceDoc)
    (htarget : db.shadowDoc target = some targetDoc) :
    db.mergeBranch run source target = (db.mergeMetadata sourceState).map
      ((db.setShadow target (targetDoc ∪ sourceDoc \ run.dropped)).finishMerge run target) := by
  simp only [mergeBranch, hstate, if_neg hne, withShadowDocument_of_some hsource,
    withShadowDocument_of_some htarget, mergeMetadata_eq sameMetadata_setShadow]

/-- A merge leaves the metadata alone. -/
theorem sameMetadata_mergeBranch
    (hmerge : db.mergeBranch run source target = some (after, error)) : SameMetadata db after := by
  rw [mergeBranch] at hmerge
  split at hmerge
  case h_1 =>
      obtain ⟨rfl, -⟩ := Prod.mk.inj (Option.some.inj hmerge)
      exact ⟨rfl, rfl⟩
  case h_2 =>
      split at hmerge
      case isTrue =>
          obtain ⟨rfl, -⟩ := Prod.mk.inj (Option.some.inj hmerge)
          exact ⟨rfl, rfl⟩
      case isFalse =>
          split at hmerge
          case h_1 =>
              obtain ⟨rfl, -⟩ := Prod.mk.inj (Option.some.inj hmerge)
              exact ⟨rfl, rfl⟩
          case h_2 =>
              obtain ⟨rfl, -⟩ := Prod.mk.inj (Option.some.inj hmerge)
              exact ⟨rfl, rfl⟩
          case h_3 =>
              obtain ⟨metadata, -, hfinish⟩ := Option.map_eq_some_iff.mp hmerge
              obtain rfl : _ = after := congrArg Prod.fst hfinish
              exact sameMetadata_setShadow.trans sameMetadata_finishMerge

omit [DecidableEq ι] [DecidableEq χ] in
theorem shadowDoc_deleteBranch (branch : κ) :
    (db.deleteBranch run branch).1.shadowDoc = db.shadowDoc := by
  rw [deleteBranch]
  split
  · rfl
  · split
    · rfl
    · rfl
    · rfl

omit [DecidableEq ι] [DecidableEq χ] in
/-- A branch is listed after the deletion unless it is the one that is deleted. -/
theorem listed_deleteBranch {branch other : κ} :
    (db.deleteBranch run branch).1.Listed other ↔
      db.Listed other ∧ ¬ (other = branch ∧ db.Removes run) := by
  rw [deleteBranch, Removes]
  cases hmetadata : db.metadataState with
  | none => simp
  | some branches =>
      cases hremoval : run.removal with
      | removed =>
          by_cases heq : other = branch
          · simp [Listed, heq]
          · simp [Listed, heq]
      | hydrateFails => simp
      | reconcileFails => simp

/-- **A merge that returns keeps the work of the source if and only if it delivers it, or the
source is not deleted.** -/
theorem keepsWork_of_mergeBranch (hmerge : db.mergeBranch run source target = some (after, error)) :
    db.KeepsWork run source target ↔
      (db.Delivers source target after ∨ db.Listed source ∧ ¬ db.Removes run) ∧
        (db.Listed target → ¬ (target = source ∧ db.Removes run)) := by
  have hsame := sameMetadata_mergeBranch hmerge
  have hremoves : after.Removes run ↔ db.Removes run := by rw [Removes, Removes, hsame.1]
  have hlisted (branch : κ) : after.Listed branch ↔ db.Listed branch := by
    rw [Listed, Listed, hsame.2]
  have hdriver : db.driverMergeBranch run source target =
      some ((after.deleteBranch run source).1.requestCheckout target) := by
    rw [driverMergeBranch, hmerge]
    rfl
  have hfinal (branch : κ) :
      ((after.deleteBranch run source).1.requestCheckout target).Listed branch ↔
        db.Listed branch ∧ ¬ (branch = source ∧ db.Removes run) := by
    rw [← hlisted, ← hremoves]
    exact listed_deleteBranch
  have hshadow : ((after.deleteBranch run source).1.requestCheckout target).shadowDoc =
      after.shadowDoc :=
    shadowDoc_deleteBranch source
  have hall : db.KeepsWork run source target ↔
      (db.Delivers source target ((after.deleteBranch run source).1.requestCheckout target) ∨
        ((after.deleteBranch run source).1.requestCheckout target).Listed source) ∧
      (db.Listed target →
        ((after.deleteBranch run source).1.requestCheckout target).Listed target) := by
    refine ⟨fun hkeeps => hkeeps _ hdriver, fun hholds final hdone => ?_⟩
    rw [← Option.some.inj (hdriver.symm.trans hdone)]
    exact hholds
  rw [hall, Delivers, hshadow, ← Delivers, hfinal, hfinal]
  constructor
  · rintro ⟨hwork, htarget⟩
    refine ⟨hwork.imp_right fun hkept => ⟨hkept.1, fun h => hkept.2 ⟨rfl, h⟩⟩, fun hbefore => ?_⟩
    exact (htarget hbefore).2
  · rintro ⟨hwork, htarget⟩
    refine ⟨hwork.imp_right fun hkept => ⟨hkept.1, fun h => hkept.2 h.2⟩, fun hbefore => ?_⟩
    exact ⟨hbefore, htarget hbefore⟩

theorem keepsWork_of_ne (hne : source ≠ target)
    (hmerge : db.mergeBranch run source target = some (after, error)) :
    db.KeepsWork run source target ↔
      db.Delivers source target after ∨ db.Listed source ∧ ¬ db.Removes run := by
  rw [keepsWork_of_mergeBranch hmerge]
  exact and_iff_left fun _ hdeleted => hne hdeleted.1.symm

theorem keepsWork_of_panic (hmerge : db.mergeBranch run source target = none) :
    db.KeepsWork run source target := by
  intro after hafter
  rw [driverMergeBranch, hmerge] at hafter
  exact nomatch hafter

/-- A branch that is merged into itself is deleted like any other. -/
theorem keepsWork_self :
    db.KeepsWork run source source ↔ (db.Listed source → ¬ db.Removes run) := by
  have hmerge : ∃ error, db.mergeBranch run source source = some (db, error) := by
    cases hstate : db.getBranchState source with
    | error error => exact ⟨_, mergeBranch_of_error hstate⟩
    | ok sourceState => exact ⟨_, mergeBranch_self hstate⟩
  obtain ⟨error, hmerge⟩ := hmerge
  have hdelivers : db.Delivers source source db :=
    fun doc hdoc => ⟨doc, hdoc, Finset.Subset.refl doc⟩
  rw [keepsWork_of_mergeBranch hmerge]
  exact ⟨fun hkeeps hlisted hremoves => hkeeps.2 hlisted ⟨rfl, hremoves⟩,
    fun hkept => ⟨.inl hdelivers, fun hlisted hdeleted => hkept hlisted hdeleted.2⟩⟩

omit [DecidableEq κ] [DecidableEq ι] [DecidableEq χ] in
theorem delivers_iff (hsource : db.shadowDoc source = some sourceDoc) :
    db.Delivers source target after ↔
      ∃ merged, after.shadowDoc target = some merged ∧ sourceDoc ⊆ merged := by
  refine ⟨fun hdelivers => hdelivers sourceDoc hsource, fun htarget doc hdoc => ?_⟩
  rwa [← Option.some.inj (hsource.symm.trans hdoc)]

/-- What a merge of two documents delivers. -/
theorem delivers_finishMerge (hsource : db.shadowDoc source = some sourceDoc)
    (hsync : db.branchSyncStates target = some sync)
    {metadata : Option (κ × Finset χ)} (hmetadata : db.mergeMetadata sourceState = some metadata) :
    db.Delivers source target
        ((db.setShadow target (targetDoc ∪ sourceDoc \ run.dropped)).finishMerge run target
          metadata).1 ↔
      (run.clearsBeforeDummy = false ∧ run.clearsBeforeReconcile = false) ∧
        ∀ change ∈ sourceDoc,
          db.Arrives run target sync (db.written run sourceState sourceDoc targetDoc) change := by
  rw [delivers_iff hsource]
  have hset : (db.setShadow target (targetDoc ∪ sourceDoc \ run.dropped)).branchSyncStates target =
      some { sync with shadowDoc := some (targetDoc ∪ sourceDoc \ run.dropped) } :=
    branchSyncStates_setShadow hsync
  by_cases hclears : run.clearsBeforeDummy = false ∧ run.clearsBeforeReconcile = false
  · obtain ⟨final, hfinal, hmem⟩ := shadowDoc_finishMerge metadata hset rfl hclears
    have harrives (change : χ) : change ∈ final ↔
        db.Arrives run target sync (db.written run sourceState sourceDoc targetDoc) change := by
      rw [hmem, written, hmetadata, Arrives, Arrives, canonical_setShadow]
      rfl
    rw [hfinal]
    constructor
    · rintro ⟨merged, hmerged, hsubset⟩
      rw [← Option.some.inj hmerged] at hsubset
      exact ⟨hclears, fun change hchange => (harrives change).mp (hsubset hchange)⟩
    · rintro ⟨-, hall⟩
      exact ⟨final, rfl, fun change hchange => (harrives change).mpr (hall change hchange)⟩
  · rw [shadowDoc_finishMerge_of_clears hset rfl hclears]
    exact ⟨fun hnone => (nomatch hnone.choose_spec.1), fun h => absurd h.1 hclears⟩

/-- **When `Driver::merge_branch` keeps the work of the source.** -/
theorem keepsWork_iff : db.KeepsWork run source target ↔ db.Survives run source target := by
  constructor
  · intro hkeeps
    by_cases heq : source = target
    · subst heq
      exact .itself rfl (keepsWork_self.mp hkeeps)
    by_cases hlisted : db.Listed source ∧ ¬ db.Removes run
    · exact .listed heq hlisted.1 hlisted.2
    have hdelivers {after : MergeDb κ ι χ} {error : Option (DbError κ)}
        (hmerge : db.mergeBranch run source target = some (after, error)) :
        db.Delivers source target after :=
      ((keepsWork_of_ne heq hmerge).mp hkeeps).resolve_right hlisted
    cases hsource : db.shadowDoc source with
    | none => exact .absent heq hsource
    | some sourceDoc =>
        cases hstate : db.getBranchState source with
        | error error =>
            obtain ⟨targetDoc, htarget, hsubset⟩ :=
              (delivers_iff hsource).mp (hdelivers (mergeBranch_of_error hstate))
            exact .known heq hstate hsource htarget hsubset
        | ok sourceState =>
            cases htarget : db.shadowDoc target with
            | none =>
                obtain ⟨error, hmerge⟩ := mergeBranch_of_missing hstate heq (.inr htarget)
                obtain ⟨targetDoc, hsome, -⟩ := (delivers_iff hsource).mp (hdelivers hmerge)
                exact nomatch htarget.symm.trans hsome
            | some targetDoc =>
                have hmerge := mergeBranch_of_docs run hstate heq hsource htarget
                cases hmetadata : db.mergeMetadata sourceState with
                | none => exact .panics heq hstate hsource htarget hmetadata
                | some metadata =>
                    rw [hmetadata] at hmerge
                    obtain ⟨sync, hsync, hshadow⟩ := Option.bind_eq_some_iff.mp htarget
                    obtain ⟨hclears, harrives⟩ :=
                      (delivers_finishMerge hsource hsync hmetadata).mp (hdelivers hmerge)
                    exact .merged heq hstate hsource hsync hshadow hclears harrives
  · intro hsurvives
    cases hsurvives with
    | panics hne hstate hsource htarget hmissing =>
        refine keepsWork_of_panic ?_
        rw [mergeBranch_of_docs run hstate hne hsource htarget, hmissing]
        rfl
    | itself heq hkept =>
        subst heq
        exact keepsWork_self.mpr hkept
    | listed hne hlisted hkept =>
        cases hmerge : db.mergeBranch run source target with
        | none => exact keepsWork_of_panic hmerge
        | some result => exact (keepsWork_of_ne hne hmerge).mpr (.inr ⟨hlisted, hkept⟩)
    | absent hne habsent =>
        cases hmerge : db.mergeBranch run source target with
        | none => exact keepsWork_of_panic hmerge
        | some result =>
            refine (keepsWork_of_ne hne hmerge).mpr (.inl fun doc hdoc => ?_)
            exact nomatch habsent.symm.trans hdoc
    | known hne hstate hsource htarget hsubset =>
        refine (keepsWork_of_ne hne (mergeBranch_of_error hstate)).mpr (.inl ?_)
        exact (delivers_iff hsource).mpr ⟨_, htarget, hsubset⟩
    | merged hne hstate hsource hsync htarget hclears harrives =>
        rename_i sourceState sourceDoc targetDoc sync
        have hdoc : db.shadowDoc target = some targetDoc := by rw [shadowDoc, hsync]; exact htarget
        have hmerge := mergeBranch_of_docs run hstate hne hsource hdoc
        cases hmetadata : db.mergeMetadata sourceState with
        | none =>
            rw [hmetadata] at hmerge
            exact keepsWork_of_panic hmerge
        | some metadata =>
            rw [hmetadata] at hmerge
            refine (keepsWork_of_ne hne hmerge).mpr (.inl ?_)
            exact (delivers_finishMerge hsource hsync hmetadata).mpr ⟨hclears, harrives⟩

end Outcome

/-- A project that was loaded with the preview of a merge checked out.  The branch that it is
merged into is tracked, but its documents are still looked for. -/
def loadingTarget : MergeDb ℕ ℕ ℕ where
  branchSyncStates
    | 2 => some ⟨some {0, 1}, {0, 1}, {0, 1}, HashMap.collect []⟩
    | 0 => some .new
    | _ => none
  canonical _ := {0}
  metadataState := some fun
    | 0 => some ⟨0, none, none, none⟩
    | 1 => some ⟨1, some ⟨0, {0}⟩, none, none⟩
    | 2 => some ⟨2, some ⟨1, {0}⟩, some ⟨0, {0}⟩, none⟩
    | _ => none
  branches
    | 0 => some ⟨0, none, none, none⟩
    | 1 => some ⟨1, some ⟨0, {0}⟩, none, none⟩
    | 2 => some ⟨2, some ⟨1, {0}⟩, some ⟨0, {0}⟩, none⟩
    | _ => none
  requestedCheckout := none

/-- **A merge into a branch that is still loading drops the source.** -/
theorem not_keepsWork_loadingTarget :
    ¬ loadingTarget.KeepsWork ⟨∅, fun _ _ => 9, false, false, .ok, .removed⟩ 2 0 := by
  intro hkeeps
  obtain ⟨hwork, -⟩ := hkeeps _ rfl
  rcases hwork with hdelivers | hlisted
  · obtain ⟨merged, hmerged, -⟩ := hdelivers {0, 1} rfl
    exact nomatch hmerged
  · exact nomatch hlisted

end MergeDb

end Backstitch
