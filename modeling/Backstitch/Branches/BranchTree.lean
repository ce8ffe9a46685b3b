/-
# The tree of branches

Every client has the metadata document, or has not yet: the entries that changes have put
and the keys that changes have removed, so that merging is union on both.  An entry is
put once, under the id of a new document.  A client reads branches from its own copy,
which its document watcher takes from the document now and then, and every call that makes
or deletes a branch reads first and writes later; anything may happen in between.
-/

import Backstitch.Branches.ForkPoints
import Backstitch.Library.HashMap

namespace Backstitch

universe u v w

/-- What the metadata document records of a branch. -/
structure NamedBranch (κ : Type u) (χ : Type v) extends Branch κ χ where
  name : String
  deriving DecidableEq

namespace NamedBranch

variable {κ : Type u} {χ : Type v} (branch : NamedBranch κ χ)

/-- `get_parent`. -/
def getParent : Option κ := branch.forkedFrom.map HistoryRef.branch

/-- A merge preview branch or a revert preview branch. -/
def IsPreview : Prop := branch.mergeInto.isSome ∨ branch.revertedTo.isSome

instance : Decidable branch.IsPreview :=
  inferInstanceAs (Decidable (_ ∨ _))

end NamedBranch

/-- `BranchesMetadataDoc`. -/
structure BranchesMetadataDoc (κ : Type u) (χ : Type v) where
  mainDocId : κ
  branches : HashMap κ (NamedBranch κ χ)

/-- The document that it is hydrated from. -/
structure MetadataDoc (κ : Type u) (χ : Type v) where
  mainDocId : κ
  put : HashMap κ (NamedBranch κ χ)
  removed : Finset κ

namespace MetadataDoc

variable {κ : Type u} {χ : Type v} [DecidableEq κ] (doc : MetadataDoc κ χ)

def hydrate : BranchesMetadataDoc κ χ where
  mainDocId := doc.mainDocId
  branches := HashMap.retain (fun id => decide (id ∉ doc.removed)) doc.put

def merge (other : MetadataDoc κ χ) : MetadataDoc κ χ where
  mainDocId := doc.mainDocId
  put := doc.put ∪ other.put
  removed := doc.removed ∪ other.removed

/-- `add_branch_to_meta`. -/
def addBranchToMeta (branch : NamedBranch κ χ) : MetadataDoc κ χ :=
  { doc with put := doc.put.insert branch.id branch }

/-- `remove_branch_from_meta`; only an entry that is there can be removed. -/
def removeBranchFromMeta (branch : κ) : MetadataDoc κ χ :=
  if branch ∈ doc.hydrate.branches then
    { doc with removed := insert branch doc.removed }
  else doc

/-- `create_metadata_doc`. -/
def create (main : κ) : MetadataDoc κ χ where
  mainDocId := main
  put := Finmap.singleton main
    { id := main, forkedFrom := none, mergeInto := none, revertedTo := none, name := "main" }
  removed := ∅

end MetadataDoc

/-- Where a client's call stands. -/
inductive PreviewCall (κ : Type u) (χ : Type v)
  | idle
  /-- The new document is filled; `add_branch_to_meta` is next. -/
  | recording (forkedFrom : HistoryRef κ χ) (mergeInto revertedTo : Option (HistoryRef κ χ))
      (name : String)
  /-- `discard_preview_branch` has seen a preview; `discard_current_branch` is next. -/
  | discarding
  /-- `confirm_preview_branch` has seen a revert; `confirm_revert_preview_branch` is next. -/
  | confirmingRevert
  /-- `remove_branch_from_meta` is next. -/
  | deleting (branch : κ)
  deriving DecidableEq

/-- The clients of a project, and the documents on their way between them. -/
structure BranchTree (κ : Type u) (χ : Type v) (π : Type w) where
  docs : π → Option (MetadataDoc κ χ)
  sent : List (MetadataDoc κ χ)
  metadataState : π → Option (BranchesMetadataDoc κ χ)
  checkedOut : π → Option κ
  calls : π → PreviewCall κ χ

/-- What may happen.  The heads of a ref are those of a shadow document at that moment, and
`short_heads` makes a revert preview's `name` of them. -/
inductive BranchTreeAction (κ : Type u) (χ : Type v) (π : Type w)
  | send (client : π)
  /-- One of the documents sent arrives, late or again or never. -/
  | receive (client : π) (index : ℕ)
  | ingestMetadataDocument (client : π)
  /-- The sync loop checks out a branch, or the client's first checkout fails. -/
  | checkOut (client : π) (branch : Option κ)
  | createBranch (client : π) (name : String) (heads : Finset χ)
  | createMergePreviewBranch (client : π) (sourceHeads targetHeads : Finset χ)
  | createRevertPreviewBranch (client : π) (name : String) (heads : Finset χ) (head : χ)
  | discardPreviewBranch (client : π)
  | confirmPreviewBranch (client : π)
  /-- A call does what is next; `id` is the id of its new document when it records. -/
  | proceed (client : π) (id : κ)

variable {κ : Type u} {χ : Type v} {π : Type w} [DecidableEq κ] [DecidableEq π]

namespace BranchTree

variable (state : BranchTree κ χ π)

/-- `get_branch_state`. -/
def getBranchState (client : π) (id : κ) : Option (NamedBranch κ χ) :=
  (state.metadataState client).bind fun metadata => metadata.branches.lookup id

/-- `get_checked_out_branch_state`. -/
def getCheckedOutBranchState (client : π) : Option (NamedBranch κ χ) :=
  (state.checkedOut client).bind (state.getBranchState client)

def setCall (client : π) (call : PreviewCall κ χ) : BranchTree κ χ π :=
  { state with calls := Function.update state.calls client call }

def setDoc (client : π) (doc : MetadataDoc κ χ) : BranchTree κ χ π :=
  { state with docs := Function.update state.docs client (some doc) }

/-- A call that has something to read begins, where the client has none in progress. -/
def begin (client : π) (call : Option (PreviewCall κ χ)) : Option (BranchTree κ χ π) :=
  match state.calls client, call with
  | .idle, some call => some (state.setCall client call)
  | _, _ => none

/-- The refs that `create_merge_preview_branch` records of the checked-out branch. -/
def mergePreview (client : π) (sourceHeads targetHeads : Finset χ) :
    Option (PreviewCall κ χ) :=
  (state.getCheckedOutBranchState client).bind fun source =>
    source.getParent.bind fun target =>
      (state.getBranchState client target).map fun targetState =>
        .recording { branch := source.id, heads := sourceHeads }
          (some { branch := target, heads := targetHeads }) none
          (targetState.name ++ " <- " ++ source.name)

/-- What `confirm_preview_branch` does with the checked-out branch. -/
def confirm (branch : NamedBranch κ χ) : Option (PreviewCall κ χ) :=
  if branch.revertedTo.isSome then some .confirmingRevert
  else if branch.mergeInto.isSome then some (.deleting branch.id)
  else none

/-- The next step of a call; where it finds nothing to do, it returns. -/
def proceed (client : π) (id : κ) (doc : MetadataDoc κ χ) : PreviewCall κ χ → BranchTree κ χ π
  | .idle => state
  | .recording forkedFrom mergeInto revertedTo name =>
      (state.setCall client .idle).setDoc client <| doc.addBranchToMeta
        { id, forkedFrom := some forkedFrom, mergeInto, revertedTo, name }
  | .discarding =>
      -- `discard_current_branch` reads the checked-out branch again and asks for a fork point.
      match state.getCheckedOutBranchState client with
      | some branch =>
          if branch.forkedFrom.isSome then state.setCall client (.deleting branch.id)
          else state.setCall client .idle
      | none => state.setCall client .idle
  | .confirmingRevert =>
      -- It reads the checked-out branch again and asks for a fork point and a revert.
      match state.getCheckedOutBranchState client with
      | some branch =>
          if branch.forkedFrom.isSome ∧ branch.revertedTo.isSome then
            state.setCall client (.deleting branch.id)
          else state.setCall client .idle
      | none => state.setCall client .idle
  | .deleting branch => (state.setCall client .idle).setDoc client (doc.removeBranchFromMeta branch)

def step : BranchTreeAction κ χ π → Option (BranchTree κ χ π)
  | .send client => (state.docs client).map fun doc => { state with sent := doc :: state.sent }
  | .receive client index => (state.sent[index]?).map fun doc =>
      state.setDoc client ((state.docs client).elim doc fun own => own.merge doc)
  | .ingestMetadataDocument client => (state.docs client).map fun doc =>
      { state with
        metadataState := Function.update state.metadataState client (some doc.hydrate) }
  | .checkOut client branch =>
      some { state with checkedOut := Function.update state.checkedOut client branch }
  | .createBranch client name heads =>
      state.begin client <| (state.getCheckedOutBranchState client).map fun source =>
        .recording { branch := source.id, heads } none none name
  | .createMergePreviewBranch client sourceHeads targetHeads =>
      state.begin client (state.mergePreview client sourceHeads targetHeads)
  | .createRevertPreviewBranch client name heads head =>
      state.begin client <| (state.getCheckedOutBranchState client).map fun source =>
        .recording { branch := source.id, heads } none
          (some { branch := source.id, heads := {head} }) name
  | .discardPreviewBranch client =>
      state.begin client <| (state.getCheckedOutBranchState client).bind fun branch =>
        if branch.IsPreview then some .discarding else none
  | .confirmPreviewBranch client =>
      state.begin client ((state.getCheckedOutBranchState client).bind confirm)
  | .proceed client id => (state.docs client).map fun doc =>
      state.proceed client id doc (state.calls client)

/-- The documents that a client has or may yet receive. -/
def Has (doc : MetadataDoc κ χ) : Prop :=
  (∃ client, state.docs client = some doc) ∨ doc ∈ state.sent

/-- One client has created the project, and nobody else knows it. -/
def Created (main : κ) : Prop :=
  (∃ creator, state.docs = Function.update (fun _ => none) creator (some (.create main))) ∧
    state.sent = [] ∧ (∀ client, state.metadataState client = none) ∧
      ∀ client, state.calls client = .idle

end BranchTree

/-- The clients of the project whose main branch is `main`. -/
def branchTree (main : κ) : System (BranchTree κ χ π) (BranchTreeAction κ χ π) where
  start state := state.Created main
  step := BranchTree.step

/-- No branch is made from a preview; a new document has a new id; and no checkout comes
between the check of `discard_preview_branch` and the read of `discard_current_branch`. -/
def KeepsTree (state : BranchTree κ χ π) : BranchTreeAction κ χ π → Prop
  | .createBranch client _ _ | .createMergePreviewBranch client _ _
  | .createRevertPreviewBranch client _ _ _ =>
      ∀ branch, state.getCheckedOutBranchState client = some branch → ¬ branch.IsPreview
  | .proceed _ id => ∀ doc, state.Has doc → id ∉ doc.put
  | .checkOut client _ => state.calls client ≠ .discarding
  | _ => True

/-! ## Every branch descends from the main branch -/

/-- The records lead from a branch back to the main branch, over branches that are no previews. -/
inductive FromMain (main : κ) (branches : HashMap κ (NamedBranch κ χ)) : κ → Prop
  | main {branch : NamedBranch κ χ} (hlookup : branches.lookup main = some branch)
      (hroot : branch.forkedFrom = none) (hopen : ¬ branch.IsPreview) : FromMain main branches main
  | fork {id parent : κ} {branch above : NamedBranch κ χ}
      (hlookup : branches.lookup id = some branch) (hparent : branch.getParent = some parent)
      (habove : branches.lookup parent = some above) (hopen : ¬ above.IsPreview)
      (hfrom : FromMain main branches parent) : FromMain main branches id

theorem FromMain.mono {main id : κ} {branches larger : HashMap κ (NamedBranch κ χ)}
    (hfrom : FromMain main branches id)
    (hlarger : ∀ id branch, branches.lookup id = some branch → larger.lookup id = some branch) :
    FromMain main larger id := by
  induction hfrom with
  | main hlookup hroot hopen => exact .main (hlarger _ _ hlookup) hroot hopen
  | fork hlookup hparent habove hopen _ ih =>
      exact .fork (hlarger _ _ hlookup) hparent (hlarger _ _ habove) hopen ih

namespace MetadataDoc

/-- The entries are under their ids and descend from the main branch, and what is removed was
a preview. -/
structure Sound (main : κ) (doc : MetadataDoc κ χ) : Prop where
  mainDocId : doc.mainDocId = main
  root : ∃ branch, doc.put.lookup main = some branch ∧ branch.forkedFrom = none ∧
    ¬ branch.IsPreview
  keyed : ∀ id branch, doc.put.lookup id = some branch → branch.id = id
  fromMain : ∀ id branch, doc.put.lookup id = some branch → FromMain main doc.put id
  removed : ∀ id ∈ doc.removed, ∃ branch, doc.put.lookup id = some branch ∧ branch.IsPreview

/-- What one document has, the other has not otherwise. -/
def Agrees (doc other : MetadataDoc κ χ) : Prop :=
  ∀ id one two, doc.put.lookup id = some one → other.put.lookup id = some two → one = two

variable {doc other : MetadataDoc κ χ} {main : κ}

theorem lookup_hydrate {id : κ} {branch : NamedBranch κ χ} :
    doc.hydrate.branches.lookup id = some branch ↔
      doc.put.lookup id = some branch ∧ id ∉ doc.removed := by
  simp [hydrate]

/-- A branch that is no preview is not removed. -/
theorem Sound.not_removed (hsound : doc.Sound main) {id : κ} {branch : NamedBranch κ χ}
    (hlookup : doc.put.lookup id = some branch) (hopen : ¬ branch.IsPreview) :
    id ∉ doc.removed := by
  intro hremoved
  obtain ⟨found, hfound, hpreview⟩ := hsound.removed id hremoved
  rw [hlookup] at hfound
  cases hfound
  exact hopen hpreview

/-- What is left still descends from the main branch. -/
theorem Sound.fromMain_hydrate (hsound : doc.Sound main) {id : κ}
    (hfrom : FromMain main doc.put id) (hleft : id ∉ doc.removed) :
    FromMain main doc.hydrate.branches id := by
  induction hfrom with
  | main hlookup hroot hopen => exact .main (lookup_hydrate.mpr ⟨hlookup, hleft⟩) hroot hopen
  | fork hlookup hparent habove hopen _ ih =>
      have hparentLeft := hsound.not_removed habove hopen
      exact .fork (lookup_hydrate.mpr ⟨hlookup, hleft⟩) hparent
        (lookup_hydrate.mpr ⟨habove, hparentLeft⟩) hopen (ih hparentLeft)

theorem sound_create (main : κ) : (MetadataDoc.create main : MetadataDoc κ χ).Sound main := by
  have hlookup : ∀ id (branch : NamedBranch κ χ),
      (MetadataDoc.create main : MetadataDoc κ χ).put.lookup id = some branch →
        id = main ∧ branch = ⟨⟨main, none, none, none⟩, "main"⟩ := by
    intro id branch hlookup
    have hmem := Finmap.mem_of_lookup_eq_some hlookup
    obtain rfl : id = main := by simpa [create] using hmem
    exact ⟨rfl, (Option.some.inj ((Finmap.lookup_singleton_eq ..).symm.trans hlookup)).symm⟩
  have hmain : (MetadataDoc.create main : MetadataDoc κ χ).put.lookup main =
      some ⟨⟨main, none, none, none⟩, "main"⟩ := Finmap.lookup_singleton_eq ..
  have hopen : ¬ (⟨⟨main, none, none, none⟩, "main"⟩ : NamedBranch κ χ).IsPreview := by
    simp [NamedBranch.IsPreview]
  constructor
  case mainDocId => rfl
  case root => exact ⟨_, hmain, rfl, hopen⟩
  case keyed =>
    intro id branch hfound
    obtain ⟨rfl, rfl⟩ := hlookup id branch hfound
    rfl
  case fromMain =>
    intro id branch hfound
    obtain ⟨rfl, rfl⟩ := hlookup id branch hfound
    exact .main hfound rfl hopen
  case removed => exact fun id hremoved => absurd hremoved (Finset.notMem_empty id)

theorem lookup_merge (hagrees : doc.Agrees other) {id : κ} {branch : NamedBranch κ χ} :
    (doc.merge other).put.lookup id = some branch ↔
      doc.put.lookup id = some branch ∨ other.put.lookup id = some branch := by
  show (doc.put ∪ other.put).lookup id = some branch ↔ _
  by_cases hmem : id ∈ doc.put
  · obtain ⟨own, hown⟩ := Finmap.mem_iff.mp hmem
    rw [Finmap.lookup_union_left hmem, hown]
    constructor
    · exact Or.inl
    · rintro (hsame | hother)
      · exact hsame
      · rw [hagrees id own branch hown hother]
  · rw [Finmap.lookup_union_right hmem, Finmap.lookup_eq_none.mpr hmem]
    simp

/-- Merging keeps a document sound. -/
theorem Sound.merge (hsound : doc.Sound main) (hother : other.Sound main)
    (hagrees : doc.Agrees other) : (doc.merge other).Sound main := by
  have hleft : ∀ id branch, doc.put.lookup id = some branch →
      (doc.merge other).put.lookup id = some branch :=
    fun id branch hlookup => (lookup_merge hagrees).mpr (.inl hlookup)
  have hright : ∀ id branch, other.put.lookup id = some branch →
      (doc.merge other).put.lookup id = some branch :=
    fun id branch hlookup => (lookup_merge hagrees).mpr (.inr hlookup)
  constructor
  case mainDocId => exact hsound.mainDocId
  case root => exact hsound.root.imp fun branch hroot => ⟨hleft main branch hroot.1, hroot.2⟩
  case keyed =>
    intro id branch hlookup
    exact ((lookup_merge hagrees).mp hlookup).elim (hsound.keyed id branch) (hother.keyed id branch)
  case fromMain =>
    intro id branch hlookup
    rcases (lookup_merge hagrees).mp hlookup with hlookup | hlookup
    · exact (hsound.fromMain id branch hlookup).mono hleft
    · exact (hother.fromMain id branch hlookup).mono hright
  case removed =>
    intro id hremoved
    rcases Finset.mem_union.mp hremoved with hremoved | hremoved
    · obtain ⟨branch, hlookup, hpreview⟩ := hsound.removed id hremoved
      exact ⟨branch, hleft id branch hlookup, hpreview⟩
    · obtain ⟨branch, hlookup, hpreview⟩ := hother.removed id hremoved
      exact ⟨branch, hright id branch hlookup, hpreview⟩

theorem lookup_addBranchToMeta {branch found : NamedBranch κ χ} {id : κ}
    (hfresh : branch.id ∉ doc.put) :
    (doc.addBranchToMeta branch).put.lookup id = some found ↔
      id = branch.id ∧ found = branch ∨ doc.put.lookup id = some found := by
  show (doc.put.insert branch.id branch).lookup id = some found ↔ _
  by_cases heq : id = branch.id
  · subst heq
    rw [Finmap.lookup_insert, Finmap.lookup_eq_none.mpr hfresh]
    simp [eq_comm]
  · rw [Finmap.lookup_insert_of_ne _ heq]
    simp [heq]

/-- A new entry whose fork point is there and no preview keeps a document sound. -/
theorem Sound.addBranchToMeta (hsound : doc.Sound main) {branch above : NamedBranch κ χ}
    {parent : κ} (hfresh : branch.id ∉ doc.put) (hparent : branch.getParent = some parent)
    (habove : doc.put.lookup parent = some above) (hopen : ¬ above.IsPreview) :
    (doc.addBranchToMeta branch).Sound main := by
  have hkept : ∀ id found, doc.put.lookup id = some found →
      (doc.addBranchToMeta branch).put.lookup id = some found :=
    fun id found hlookup => (lookup_addBranchToMeta hfresh).mpr (.inr hlookup)
  have hnew : (doc.addBranchToMeta branch).put.lookup branch.id = some branch :=
    (lookup_addBranchToMeta hfresh).mpr (.inl ⟨rfl, rfl⟩)
  constructor
  case mainDocId => exact hsound.mainDocId
  case root => exact hsound.root.imp fun branch hroot => ⟨hkept main branch hroot.1, hroot.2⟩
  case keyed =>
    intro id found hlookup
    rcases (lookup_addBranchToMeta hfresh).mp hlookup with ⟨rfl, rfl⟩ | hlookup
    · rfl
    · exact hsound.keyed id found hlookup
  case fromMain =>
    intro id found hlookup
    rcases (lookup_addBranchToMeta hfresh).mp hlookup with ⟨rfl, rfl⟩ | hlookup
    · exact .fork hnew hparent (hkept parent above habove) hopen
        ((hsound.fromMain parent above habove).mono hkept)
    · exact (hsound.fromMain id found hlookup).mono hkept
  case removed =>
    intro id hremoved
    obtain ⟨found, hlookup, hpreview⟩ := hsound.removed id hremoved
    exact ⟨found, hkept id found hlookup, hpreview⟩

/-- Removing a preview keeps a document sound. -/
theorem Sound.removeBranchFromMeta (hsound : doc.Sound main) {id : κ} {branch : NamedBranch κ χ}
    (hlookup : doc.put.lookup id = some branch) (hpreview : branch.IsPreview) :
    (doc.removeBranchFromMeta id).Sound main ∧ (doc.removeBranchFromMeta id).put = doc.put := by
  unfold MetadataDoc.removeBranchFromMeta
  split
  · refine ⟨⟨hsound.mainDocId, hsound.root, hsound.keyed, hsound.fromMain, ?_⟩, rfl⟩
    intro other hremoved
    rcases Finset.mem_insert.mp hremoved with rfl | hremoved
    · exact ⟨branch, hlookup, hpreview⟩
    · exact hsound.removed other hremoved
  · exact ⟨hsound, rfl⟩

end MetadataDoc

namespace BranchTree

variable {state next : BranchTree κ χ π} {main : κ}

/-- The client's document has this entry. -/
def Knows (state : BranchTree κ χ π) (client : π) (id : κ) (branch : NamedBranch κ χ) : Prop :=
  ∃ doc, state.docs client = some doc ∧ doc.put.lookup id = some branch

omit [DecidableEq π] in
theorem Knows.lookup {client : π} {id : κ} {branch : NamedBranch κ χ} {doc : MetadataDoc κ χ}
    (hknows : state.Knows client id branch) (hdoc : state.docs client = some doc) :
    doc.put.lookup id = some branch := by
  obtain ⟨same, hsame, hlookup⟩ := hknows
  rw [hdoc] at hsame
  cases hsame
  exact hlookup

omit [DecidableEq π] in
theorem Knows.unique {client : π} {id : κ} {one two : NamedBranch κ χ}
    (hone : state.Knows client id one) (htwo : state.Knows client id two) : one = two := by
  obtain ⟨doc, hdoc, hlookup⟩ := hone
  exact Option.some.inj (hlookup.symm.trans (htwo.lookup hdoc))

/-- What a client's call relies on: a branch to be recorded hangs below a branch that is no
preview, and a branch to be deleted is a preview. -/
def Fits (state : BranchTree κ χ π) (client : π) : PreviewCall κ χ → Prop
  | .idle => True
  | .recording forkedFrom _ _ _ =>
      ∃ above, state.Knows client forkedFrom.branch above ∧ ¬ above.IsPreview
  | .discarding => ∃ id branch, state.checkedOut client = some id ∧
      state.Knows client id branch ∧ branch.IsPreview
  | .confirmingRevert => True
  | .deleting id => ∃ branch, state.Knows client id branch ∧ branch.IsPreview

/-- What a client reads of the metadata was in its document, and descends from the main branch. -/
structure ReadsTree (main : κ) (state : BranchTree κ χ π) (client : π)
    (metadata : BranchesMetadataDoc κ χ) : Prop where
  mainDocId : metadata.mainDocId = main
  root : ∃ branch, metadata.branches.lookup main = some branch ∧ branch.forkedFrom = none ∧
    ¬ branch.IsPreview
  knows : ∀ id branch, metadata.branches.lookup id = some branch → state.Knows client id branch
  keyed : ∀ id branch, metadata.branches.lookup id = some branch → branch.id = id
  fromMain : ∀ id branch, metadata.branches.lookup id = some branch →
    FromMain main metadata.branches id

/-- All documents are sound and agree, and every client relies on what its document has. -/
structure Rooted (main : κ) (state : BranchTree κ χ π) : Prop where
  sound : ∀ doc, state.Has doc → doc.Sound main
  agree : ∀ doc other, state.Has doc → state.Has other → doc.Agrees other
  reads : ∀ client metadata, state.metadataState client = some metadata →
    ReadsTree main state client metadata
  calls : ∀ client, state.Fits client (state.calls client)

omit [DecidableEq π] in
/-- A larger document relies on no less. -/
theorem Fits.mono {client : π} {call : PreviewCall κ χ} (hfits : state.Fits client call)
    (hknows : ∀ id branch, state.Knows client id branch → next.Knows client id branch)
    (hcheckedOut : call = .discarding → next.checkedOut client = state.checkedOut client) :
    next.Fits client call := by
  cases call with
  | idle => trivial
  | recording forkedFrom mergeInto revertedTo name =>
      exact hfits.imp fun above => And.imp_left (hknows _ above)
  | discarding =>
      obtain ⟨id, branch, hid, hknown, hpreview⟩ := hfits
      exact ⟨id, branch, (hcheckedOut rfl).trans hid, hknows id branch hknown, hpreview⟩
  | confirmingRevert => trivial
  | deleting id => exact hfits.imp fun branch => And.imp_left (hknows id branch)

omit [DecidableEq π] in
theorem ReadsTree.mono {client : π} {metadata : BranchesMetadataDoc κ χ}
    (hreads : ReadsTree main state client metadata)
    (hknows : ∀ id branch, state.Knows client id branch → next.Knows client id branch) :
    ReadsTree main next client metadata :=
  ⟨hreads.mainDocId, hreads.root,
    fun id branch hlookup => hknows id branch (hreads.knows id branch hlookup), hreads.keyed,
    hreads.fromMain⟩

/-- A call that begins or goes on keeps everything when it fits. -/
theorem Rooted.setCall (hrooted : state.Rooted main) {client : π} {call : PreviewCall κ χ}
    (hfits : state.Fits client call) : (state.setCall client call).Rooted main := by
  refine ⟨hrooted.sound, hrooted.agree, fun other metadata hmetadata =>
    (hrooted.reads other metadata hmetadata).mono fun _ _ hknows => hknows, fun other => ?_⟩
  show (state.setCall client call).Fits other (Function.update state.calls client call other)
  by_cases heq : other = client
  · subst heq
    rw [Function.update_self]
    exact hfits.mono (fun _ _ => id) fun _ => rfl
  · rw [Function.update_of_ne heq]
    exact (hrooted.calls other).mono (fun _ _ => id) fun _ => rfl

omit [DecidableEq κ] in
theorem has_setDoc {client : π} {doc found : MetadataDoc κ χ}
    (hhas : (state.setDoc client doc).Has found) : found = doc ∨ state.Has found := by
  rcases hhas with ⟨other, hother⟩ | hsent
  · have hother : Function.update state.docs client (some doc) other = some found := hother
    by_cases heq : other = client
    · subst heq
      rw [Function.update_self] at hother
      exact .inl (Option.some.inj hother).symm
    · rw [Function.update_of_ne heq] at hother
      exact .inr (.inl ⟨other, hother⟩)
  · exact .inr (.inr hsent)

/-- A document that grows, and agrees with the others, keeps everything. -/
theorem Rooted.setDoc (hrooted : state.Rooted main) {client : π} {doc : MetadataDoc κ χ}
    (hsound : doc.Sound main) (hagree : ∀ other, state.Has other → doc.Agrees other)
    (hgrows : ∀ id branch, state.Knows client id branch → doc.put.lookup id = some branch) :
    (state.setDoc client doc).Rooted main := by
  have hknows : ∀ other id branch, state.Knows other id branch →
      (state.setDoc client doc).Knows other id branch := by
    intro other id branch hknown
    by_cases heq : other = client
    · subst heq
      exact ⟨doc, Function.update_self .., hgrows id branch hknown⟩
    · obtain ⟨old, hold, hlookup⟩ := hknown
      exact ⟨old, (Function.update_of_ne heq ..).trans hold, hlookup⟩
  have hself : doc.Agrees doc := fun id one two hone htwo =>
    Option.some.inj (hone.symm.trans htwo)
  constructor
  case sound =>
    intro found hfound
    rcases has_setDoc hfound with rfl | hfound
    · exact hsound
    · exact hrooted.sound found hfound
  case agree =>
    intro one two hone htwo
    rcases has_setDoc hone with hnew | hold
    · rw [hnew]
      rcases has_setDoc htwo with hsame | hother
      · rw [hsame]
        exact hself
      · exact hagree two hother
    · rcases has_setDoc htwo with hnew | hother
      · rw [hnew]
        exact fun id first second hfirst hsecond =>
          (hagree one hold id second first hsecond hfirst).symm
      · exact hrooted.agree one two hold hother
  case reads =>
    exact fun other metadata hmetadata =>
      (hrooted.reads other metadata hmetadata).mono (hknows other)
  case calls => exact fun other => (hrooted.calls other).mono (hknows other) fun _ => rfl

/-! ## What each step keeps -/

omit [DecidableEq π] in
/-- The checked-out branch that a client reads is one that its document has. -/
theorem Rooted.exists_checkedOut (hrooted : state.Rooted main) {client : π}
    {branch : NamedBranch κ χ} (hread : state.getCheckedOutBranchState client = some branch) :
    state.checkedOut client = some branch.id ∧ state.Knows client branch.id branch := by
  obtain ⟨id, hid, hstate⟩ := Option.bind_eq_some_iff.mp hread
  obtain ⟨metadata, hmetadata, hlookup⟩ := Option.bind_eq_some_iff.mp hstate
  have hreads := hrooted.reads client metadata hmetadata
  obtain rfl := hreads.keyed id branch hlookup
  exact ⟨hid, hreads.knows _ branch hlookup⟩

omit [DecidableEq κ] in
theorem begin_cases {client : π} {call : Option (PreviewCall κ χ)}
    (hbegin : state.begin client call = some next) :
    ∃ begun, call = some begun ∧ next = state.setCall client begun := by
  unfold BranchTree.begin at hbegin
  split at hbegin
  · cases hbegin
    exact ⟨_, rfl, rfl⟩
  · cases hbegin

omit [DecidableEq π] in
/-- A branch that is to be recorded hangs below the checked-out branch. -/
theorem Rooted.fits_recording (hrooted : state.Rooted main) {client : π}
    {source : NamedBranch κ χ} (hsource : state.getCheckedOutBranchState client = some source)
    (hopen : ¬ source.IsPreview) (heads : Finset χ) (mergeInto revertedTo : Option (HistoryRef κ χ))
    (name : String) :
    state.Fits client (.recording { branch := source.id, heads } mergeInto revertedTo name) :=
  ⟨source, (hrooted.exists_checkedOut hsource).2, hopen⟩

/-- A call that does what is next keeps everything. -/
theorem Rooted.proceed (hrooted : state.Rooted main) {client : π} {id : κ}
    {doc : MetadataDoc κ χ} (hdoc : state.docs client = some doc)
    (hfresh : ∀ doc, state.Has doc → id ∉ doc.put) :
    (state.proceed client id doc (state.calls client)).Rooted main := by
  have hhas : state.Has doc := .inl ⟨client, hdoc⟩
  have hsound := hrooted.sound doc hhas
  have hidle : (state.setCall client .idle).Rooted main := hrooted.setCall trivial
  have hfits := hrooted.calls client
  revert hfits
  cases state.calls client with
  | idle => exact fun _ => hrooted
  | recording forkedFrom mergeInto revertedTo name =>
      rintro ⟨above, hknown, hopen⟩
      have hnew : id ∉ doc.put := hfresh doc hhas
      apply hidle.setDoc (hsound.addBranchToMeta hnew rfl (hknown.lookup hdoc) hopen)
      · intro other hother found one two hone htwo
        rcases (MetadataDoc.lookup_addBranchToMeta hnew).mp hone with ⟨rfl, rfl⟩ | hone
        · exact absurd (Finmap.mem_of_lookup_eq_some htwo) (hfresh other hother)
        · exact hrooted.agree doc other hhas hother found one two hone htwo
      · intro found branch hfound
        exact (MetadataDoc.lookup_addBranchToMeta hnew).mpr (.inr (hfound.lookup hdoc))
  | discarding =>
      rintro ⟨checkedOut, preview, hcheckedOut, hknown, hpreview⟩
      show (match state.getCheckedOutBranchState client with
        | some branch =>
            if branch.forkedFrom.isSome then state.setCall client (.deleting branch.id)
            else state.setCall client .idle
        | none => state.setCall client .idle).Rooted main
      cases hread : state.getCheckedOutBranchState client with
      | none => exact hidle
      | some branch =>
          obtain ⟨hid, hbranch⟩ := hrooted.exists_checkedOut hread
          rw [hcheckedOut] at hid
          cases hid
          obtain rfl := hknown.unique hbranch
          dsimp only
          split
          · exact hrooted.setCall ⟨preview, hknown, hpreview⟩
          · exact hidle
  | confirmingRevert =>
      intro _
      show (match state.getCheckedOutBranchState client with
        | some branch =>
            if branch.forkedFrom.isSome ∧ branch.revertedTo.isSome then
              state.setCall client (.deleting branch.id)
            else state.setCall client .idle
        | none => state.setCall client .idle).Rooted main
      cases hread : state.getCheckedOutBranchState client with
      | none => exact hidle
      | some branch =>
          dsimp only
          split
          case isTrue hboth =>
            exact hrooted.setCall
              ⟨branch, (hrooted.exists_checkedOut hread).2, .inr hboth.2⟩
          case isFalse => exact hidle
  | deleting target =>
      rintro ⟨branch, hknown, hpreview⟩
      obtain ⟨hremoved, hput⟩ := hsound.removeBranchFromMeta (hknown.lookup hdoc) hpreview
      apply hidle.setDoc hremoved
      · intro other hother id one two hone
        rw [hput] at hone
        exact hrooted.agree doc other hhas hother id one two hone
      · intro id found hfound
        rw [hput]
        exact hfound.lookup hdoc

omit [DecidableEq π] in
/-- What a client hydrates of its document descends from the main branch. -/
theorem readsTree_hydrate {client : π} {doc : MetadataDoc κ χ} (hsound : doc.Sound main)
    (hdoc : state.docs client = some doc) : ReadsTree main state client doc.hydrate := by
  constructor
  case mainDocId => exact hsound.mainDocId
  case root =>
    obtain ⟨branch, hlookup, hroot, hopen⟩ := hsound.root
    have hleft := hsound.not_removed hlookup hopen
    exact ⟨branch, MetadataDoc.lookup_hydrate.mpr ⟨hlookup, hleft⟩, hroot, hopen⟩
  case knows =>
    exact fun id branch hlookup => ⟨doc, hdoc, (MetadataDoc.lookup_hydrate.mp hlookup).1⟩
  case keyed =>
    exact fun id branch hlookup => hsound.keyed id branch (MetadataDoc.lookup_hydrate.mp hlookup).1
  case fromMain =>
    intro id branch hlookup
    obtain ⟨hput, hleft⟩ := MetadataDoc.lookup_hydrate.mp hlookup
    exact hsound.fromMain_hydrate (hsound.fromMain id branch hput) hleft

/-- **Step lemma.** -/
theorem Rooted.step (hrooted : state.Rooted main) {action : BranchTreeAction κ χ π}
    (hkeeps : KeepsTree state action) (hstep : state.step action = some next) :
    next.Rooted main := by
  cases action with
  | send client =>
      obtain ⟨doc, hdoc, rfl⟩ := Option.map_eq_some_iff.mp hstep
      have hhas : ∀ found, BranchTree.Has { state with sent := doc :: state.sent } found →
          state.Has found := by
        rintro found (hfound | hfound)
        · exact .inl hfound
        · rcases List.mem_cons.mp hfound with rfl | hfound
          · exact .inl ⟨client, hdoc⟩
          · exact .inr hfound
      exact ⟨fun found hfound => hrooted.sound found (hhas found hfound),
        fun one two hone htwo => hrooted.agree one two (hhas one hone) (hhas two htwo),
        fun other metadata hmetadata =>
          (hrooted.reads other metadata hmetadata).mono fun _ _ hknows => hknows,
        fun other => (hrooted.calls other).mono (fun _ _ hknows => hknows) fun _ => rfl⟩
  | receive client index =>
      obtain ⟨doc, hdoc, rfl⟩ := Option.map_eq_some_iff.mp hstep
      have hhas : state.Has doc := .inr (List.mem_of_getElem? hdoc)
      have hsound := hrooted.sound doc hhas
      cases hown : state.docs client with
      | none =>
          apply hrooted.setDoc hsound
          · exact fun other hother => hrooted.agree doc other hhas hother
          · rintro id branch ⟨old, hold, -⟩
            rw [hown] at hold
            cases hold
      | some own =>
          have hownHas : state.Has own := .inl ⟨client, hown⟩
          have hagree := hrooted.agree own doc hownHas hhas
          apply hrooted.setDoc ((hrooted.sound own hownHas).merge hsound hagree)
          · intro other hother id one two hone htwo
            rcases (MetadataDoc.lookup_merge hagree).mp hone with hone | hone
            · exact hrooted.agree own other hownHas hother id one two hone htwo
            · exact hrooted.agree doc other hhas hother id one two hone htwo
          · intro id branch hknown
            exact (MetadataDoc.lookup_merge hagree).mpr (.inl (hknown.lookup hown))
  | ingestMetadataDocument client =>
      obtain ⟨doc, hdoc, rfl⟩ := Option.map_eq_some_iff.mp hstep
      refine ⟨hrooted.sound, hrooted.agree, fun other metadata hmetadata => ?_, fun other =>
        (hrooted.calls other).mono (fun _ _ hknows => hknows) fun _ => rfl⟩
      have hmetadata : Function.update state.metadataState client (some doc.hydrate) other =
        some metadata := hmetadata
      by_cases heq : other = client
      · subst heq
        rw [Function.update_self] at hmetadata
        cases hmetadata
        exact (readsTree_hydrate (hrooted.sound doc (.inl ⟨other, hdoc⟩)) hdoc).mono
          fun _ _ hknows => hknows
      · rw [Function.update_of_ne heq] at hmetadata
        exact (hrooted.reads other metadata hmetadata).mono fun _ _ hknows => hknows
  | checkOut client branch =>
      cases hstep
      refine ⟨hrooted.sound, hrooted.agree, fun other metadata hmetadata =>
        (hrooted.reads other metadata hmetadata).mono fun _ _ hknows => hknows, fun other => ?_⟩
      refine (hrooted.calls other).mono (fun _ _ hknows => hknows) fun hdiscarding => ?_
      have hne : other ≠ client := by
        rintro rfl
        exact hkeeps hdiscarding
      exact Function.update_of_ne hne ..
  | createBranch client name heads =>
      obtain ⟨begun, hbegun, rfl⟩ := begin_cases hstep
      obtain ⟨source, hsource, rfl⟩ := Option.map_eq_some_iff.mp hbegun
      exact hrooted.setCall (hrooted.fits_recording hsource (hkeeps source hsource) ..)
  | createMergePreviewBranch client sourceHeads targetHeads =>
      obtain ⟨begun, hbegun, rfl⟩ := begin_cases hstep
      obtain ⟨source, hsource, hrest⟩ := Option.bind_eq_some_iff.mp hbegun
      obtain ⟨target, -, hrest⟩ := Option.bind_eq_some_iff.mp hrest
      obtain ⟨targetState, -, rfl⟩ := Option.map_eq_some_iff.mp hrest
      exact hrooted.setCall (hrooted.fits_recording hsource (hkeeps source hsource) ..)
  | createRevertPreviewBranch client name heads head =>
      obtain ⟨begun, hbegun, rfl⟩ := begin_cases hstep
      obtain ⟨source, hsource, rfl⟩ := Option.map_eq_some_iff.mp hbegun
      exact hrooted.setCall (hrooted.fits_recording hsource (hkeeps source hsource) ..)
  | discardPreviewBranch client =>
      obtain ⟨begun, hbegun, rfl⟩ := begin_cases hstep
      obtain ⟨branch, hread, hrest⟩ := Option.bind_eq_some_iff.mp hbegun
      obtain ⟨hpreview, rfl⟩ := Option.ite_none_right_eq_some.mp hrest |>.imp_right Option.some.inj
      obtain ⟨hid, hknown⟩ := hrooted.exists_checkedOut hread
      exact hrooted.setCall ⟨branch.id, branch, hid, hknown, hpreview⟩
  | confirmPreviewBranch client =>
      obtain ⟨begun, hbegun, rfl⟩ := begin_cases hstep
      obtain ⟨branch, hread, hrest⟩ := Option.bind_eq_some_iff.mp hbegun
      have hknown := (hrooted.exists_checkedOut hread).2
      unfold confirm at hrest
      split at hrest
      · cases hrest
        exact hrooted.setCall trivial
      · obtain ⟨hmerge, rfl⟩ := Option.ite_none_right_eq_some.mp hrest |>.imp_right Option.some.inj
        exact hrooted.setCall ⟨branch, hknown, .inl hmerge⟩
  | proceed client id =>
      obtain ⟨doc, hdoc, rfl⟩ := Option.map_eq_some_iff.mp hstep
      exact hrooted.proceed hdoc hkeeps

/-- A new project has its main branch. -/
theorem rooted_of_created (hcreated : state.Created main) : state.Rooted main := by
  obtain ⟨⟨creator, hdocs⟩, hsent, hmetadata, hcalls⟩ := hcreated
  have hhas : ∀ doc, state.Has doc → doc = .create main := by
    rintro doc (⟨client, hclient⟩ | hin)
    · rw [hdocs] at hclient
      by_cases heq : client = creator
      · subst heq
        rw [Function.update_self] at hclient
        exact (Option.some.inj hclient).symm
      · rw [Function.update_of_ne heq] at hclient
        cases hclient
    · rw [hsent] at hin
      cases hin
  constructor
  case sound =>
    intro doc hdoc
    rw [hhas doc hdoc]
    exact MetadataDoc.sound_create main
  case agree =>
    intro one two hone htwo id first second hfirst hsecond
    rw [hhas one hone] at hfirst
    rw [hhas two htwo] at hsecond
    exact Option.some.inj (hfirst.symm.trans hsecond)
  case reads =>
    intro client metadata hsome
    rw [hmetadata client] at hsome
    cases hsome
  case calls =>
    intro client
    rw [hcalls client]
    trivial

/-- **Every branch that a client reads of descends from the main branch**, over branches that are
no previews, in every run that keeps the tree. -/
theorem readsTree_of_reachable (hreach : (branchTree main).Reachable KeepsTree state) {client : π}
    {metadata : BranchesMetadataDoc κ χ}
    (hmetadata : state.metadataState client = some metadata) :
    ReadsTree main state client metadata := by
  have hrooted : state.Rooted main := hreach.invariant
    (fun _ hcreated => rooted_of_created hcreated)
    fun _ _ _ hrooted hkeeps hstep => hrooted.step hkeeps hstep
  exact hrooted.reads client metadata hmetadata

end BranchTree

end Backstitch
