/-
# Branch sync states

A client keeps, for each branch, a canonical document that other clients change and a
shadow document that its own commits go to.  The shadow document takes over the
canonical one only once every linked binary document has been looked for.

Documents are sets of changes, merging is union, and heads are taken as the set of
changes that they name.  A call that holds `branch_sync_states` is carried along with
what is left of it, since no other such call can start meanwhile; what only takes one
shadow document is one step and may come at any time, as may remote changes.
-/

import Backstitch.Library.HashMap
import Backstitch.Library.System
import Mathlib.Data.Finset.Lattice.Lemmas

namespace Backstitch

universe u v w x y

inductive BinaryDocStatus
  | pending
  | failed
  | ok
  deriving DecidableEq

/-- The status that an entry of `binary_states` stands for. -/
def BinaryDocStatus.ofEntry {η : Type u} : Option (Option η) → BinaryDocStatus
  | some (some _) => .ok
  | some none => .failed
  | none => .pending

structure BranchSyncState (ι : Type u) (χ : Type v) where
  shadowDoc : Option (Finset χ)
  /-- The most up-to-date heads seen on the canonical document. -/
  lastTracked : Finset χ
  /-- The last heads on the canonical document that were reconciled from. -/
  lastReconciled : Finset χ
  canonicalBinaryDocs : HashMap ι BinaryDocStatus

/-- How the two merges of a reconcile turn out. -/
inductive MergeOutcome
  | ok
  /-- Merging the canonical document into the shadow document fails. -/
  | shadowFails
  /-- Merging the shadow document back into the canonical document fails. -/
  | canonicalFails
  deriving DecidableEq

/-- A call that holds `branch_sync_states`, with what is left of it. -/
inductive SyncCall (κ : Type u) (ι : Type v) (η : Type w)
  /-- `update_branch_sync_state`, `commit_fs_changes`, or the tail of a merge: one
  reconcile is left. -/
  | reconciling (branch : κ)
  /-- `ingest_binary_doc` goes on with these branches. -/
  | ingesting (id : ι) (handle : Option η) (rest : List κ)
  /-- `ingest_binary_doc` has set the status on this branch and reconciles it. -/
  | ingestReconciling (id : ι) (handle : Option η) (branch : κ) (rest : List κ)

/-- `poll_document`: still looking, or about to ingest what came of it. -/
inductive Poll (ι : Type u) (η : Type v)
  | looking (id : ι)
  | ended (id : ι) (handle : Option η)
  deriving DecidableEq

/-- A client with its branches and the tasks that work on them. -/
structure BranchDb (κ : Type u) (ι : Type v) (η : Type w) (χ : Type x) (π : Type y)
    [DecidableEq κ] [DecidableEq ι] where
  canonical : κ → Finset χ
  branchSyncStates : HashMap κ (BranchSyncState ι χ)
  binaryStates : HashMap ι (Option η)
  call : Option (SyncCall κ ι η)
  /-- What `ingest_branch_document` read and has not handed over yet. -/
  readings : κ → Option (Finset χ × Finset ι)
  /-- Branches with a change notification that is still to be processed. -/
  notified : Finset κ
  /-- The targets of merges whose shadow documents are merged and that are not yet
  reconciled. -/
  merging : List κ
  polls : π → Option (Poll ι η)
  /-- The documents that the repo can find. -/
  available : ι → Option η
  /-- Binary documents created by this client's own commits. -/
  created : Finset ι

inductive SyncAction (κ : Type u) (ι : Type v) (η : Type w) (χ : Type x) (π : Type y)
  | remoteChange (branch : κ) (changes : Finset χ)
  /-- The watcher starts on a branch. -/
  | trackBranchDocument (branch : κ)
  /-- `ingest_branch_document` reads heads and linked documents. -/
  | readBranchDocument (branch : κ)
  | trackBinaryDocument (task : π) (branch : κ) (id : ι)
  /-- One lookup of a poll; `last` says that a miss is its last one. -/
  | lookUp (task : π) (last : Bool)
  | becomeAvailable (id : ι) (handle : η)
  /-- `order` is the order of the linked documents. -/
  | updateBranchSyncState (branch : κ) (order : List ι)
  /-- `order` is the order of the branches. -/
  | ingestBinaryDoc (task : π) (order : List κ)
  /-- `ingest_binary_doc` goes on to the next branch. -/
  | ingestNext
  | tryReconcileBranch (outcome : MergeOutcome)
  | commitFsChanges (branch : κ) (change : χ) (created : Finset ι)
  /-- `get_hash_index` commits hashes that were missing. -/
  | reinsertHashes (branch : κ) (change : χ)
  /-- `merge_branch` or `confirm_revert_preview_branch` merges shadow documents. -/
  | mergeShadow (source target : κ)
  /-- `merge_branch` commits its metadata. -/
  | markMerge (target : κ) (change : χ)
  /-- The merge goes on to reconcile its target. -/
  | finishMerge (target : κ)
  /-- `merge_branch` panics because no fork point is recorded. -/
  | abandonMerge (target : κ)
  | clearBranchStates

variable {κ : Type u} {ι : Type v} {η : Type w} {χ : Type x} {π : Type y}
  [DecidableEq κ] [DecidableEq ι] [DecidableEq χ] [DecidableEq π]

namespace BranchSyncState

/-- A state that `update_branch_sync_state` adds. -/
def new : BranchSyncState ι χ where
  shadowDoc := none
  lastTracked := ∅
  lastReconciled := ∅
  canonicalBinaryDocs := ∅

/-- `resolved_all_canonical_binary_docs`. -/
def Resolved (state : BranchSyncState ι χ) : Prop :=
  ∀ id ∈ state.canonicalBinaryDocs, state.canonicalBinaryDocs.lookup id ≠ some .pending

instance (state : BranchSyncState ι χ) : Decidable state.Resolved :=
  decidable_of_iff (∀ id ∈ state.canonicalBinaryDocs.keys,
    state.canonicalBinaryDocs.lookup id ≠ some .pending) (by
      simp only [Resolved, Finmap.mem_keys])

/-- Nothing new was tracked, and the shadow document is where it was reconciled. -/
def UpToDate (state : BranchSyncState ι χ) : Prop :=
  state.lastReconciled = state.lastTracked ∧ state.shadowDoc = some state.lastReconciled

instance (state : BranchSyncState ι χ) : Decidable state.UpToDate :=
  inferInstanceAs (Decidable (_ ∧ _))

/-- A reconcile passes its two checks and merges. -/
def Merges (state : BranchSyncState ι χ) : Prop :=
  state.Resolved ∧ ¬ state.UpToDate

instance (state : BranchSyncState ι χ) : Decidable state.Merges :=
  inferInstanceAs (Decidable (_ ∧ _))

/-- The shadow document after a merge with the canonical one; it is forked from the
canonical document if there is none. -/
def merged (state : BranchSyncState ι χ) (canonical : Finset χ) : Finset χ :=
  state.shadowDoc.getD canonical ∪ canonical

/-- `try_reconcile_branch`: the state and the canonical document afterwards, and
whether it returned without an error. -/
def tryReconcileBranch (state : BranchSyncState ι χ) (canonical : Finset χ)
    (outcome : MergeOutcome) : BranchSyncState ι χ × Finset χ × Bool :=
  if state.Merges then
    match outcome with
    | .ok =>
        let merged := state.merged canonical
        ({ state with shadowDoc := some merged, lastReconciled := merged, lastTracked := merged },
          merged, true)
    | .shadowFails =>
        ({ state with shadowDoc := some (state.shadowDoc.getD canonical) }, canonical, false)
    | .canonicalFails =>
        ({ state with shadowDoc := some (state.merged canonical) }, canonical, false)
  else (state, canonical, true)

/-- The first part of `update_branch_sync_state`. -/
def track (state : BranchSyncState ι χ) (binaryStates : HashMap ι (Option η))
    (heads : Finset χ) (order : List ι) : BranchSyncState ι χ :=
  { state with
    lastTracked := heads
    canonicalBinaryDocs :=
      HashMap.collect (order.map fun id => ⟨id, .ofEntry (binaryStates.lookup id)⟩) }

end BranchSyncState

namespace BranchDb

variable (links : Finset χ → Finset ι) (db : BranchDb κ ι η χ π)

def setSync (branch : κ) (sync : BranchSyncState ι χ) : BranchDb κ ι η χ π :=
  { db with branchSyncStates := db.branchSyncStates.insert branch sync }

/-- Write a canonical document; a change notifies the watcher. -/
def setCanonical (branch : κ) (doc : Finset χ) : BranchDb κ ι η χ π :=
  { db with
    canonical := Function.update db.canonical branch doc
    notified := if doc = db.canonical branch then db.notified else insert branch db.notified }

/-- Run `try_reconcile_branch` on a branch and go on with `next` if it returned
without an error. -/
def reconcileThen (branch : κ) (outcome : MergeOutcome) (next : Option (SyncCall κ ι η)) :
    Option (BranchDb κ ι η χ π) :=
  (db.branchSyncStates.lookup branch).map fun sync =>
    let result := sync.tryReconcileBranch (db.canonical branch) outcome
    { (db.setSync branch result.1).setCanonical branch result.2.1 with
      call := if result.2.2 then next else none }

/-- Commit a change to a shadow document that is there.  What a commit links are the
documents that were created for it. -/
def commitToShadow (branch : κ) (change : χ) (created : Finset ι) :
    Option (BranchDb κ ι η χ π) :=
  (db.branchSyncStates.lookup branch).bind fun sync =>
    sync.shadowDoc.bind fun doc =>
      if links (insert change doc) ⊆ links doc ∪ created then
        some (db.setSync branch { sync with shadowDoc := some (insert change doc) })
      else none

/-- One branch of the loop of `ingest_binary_doc`. -/
def ingestNext : Option (BranchDb κ ι η χ π) :=
  match db.call with
  | some (.ingesting _ _ []) => some { db with call := none }
  | some (.ingesting id handle (branch :: rest)) =>
      match db.branchSyncStates.lookup branch with
      | some sync =>
          if id ∈ sync.canonicalBinaryDocs then
            some { db.setSync branch { sync with
                canonicalBinaryDocs :=
                  sync.canonicalBinaryDocs.insert id (.ofEntry (some handle)) } with
              call := some (.ingestReconciling id handle branch rest) }
          else some { db with call := some (.ingesting id handle rest) }
      | none => none
  | _ => none

/-- `ingest_branch_document` reads the canonical document. -/
def readBranchDocument (branch : κ) : Option (BranchDb κ ι η χ π) :=
  if branch ∈ db.notified ∧ db.readings branch = none then
    let doc := db.canonical branch
    some { db with
      notified := db.notified.erase branch
      readings := Function.update db.readings branch (some (doc, links doc)) }
  else none

/-- `track_binary_document` spawns a poll. -/
def trackBinaryDocument (task : π) (branch : κ) (id : ι) : Option (BranchDb κ ι η χ π) :=
  match db.readings branch with
  | some (_, linked) =>
      if id ∈ linked ∧ id ∉ db.binaryStates ∧ db.polls task = none then
        some { db with polls := Function.update db.polls task (some (.looking id)) }
      else none
  | none => none

/-- One round of `poll_document`. -/
def lookUp (task : π) (last : Bool) : Option (BranchDb κ ι η χ π) :=
  match db.polls task with
  | some (.looking id) =>
      match db.available id with
      | some handle =>
          some { db with polls := Function.update db.polls task (some (.ended id handle)) }
      | none =>
          if last then
            some { db with polls := Function.update db.polls task (some (.ended id none)) }
          else some db
  | _ => none

/-- `update_branch_sync_state`, up to its reconcile. -/
def updateBranchSyncState (branch : κ) (order : List ι) : Option (BranchDb κ ι η χ π) :=
  match db.call, db.readings branch with
  | none, some (heads, linked) =>
      if order.Nodup ∧ order.toFinset = linked then
        let sync := ((db.branchSyncStates.lookup branch).getD .new).track db.binaryStates
          heads order
        some { db.setSync branch sync with
          readings := Function.update db.readings branch none
          call := if sync.Resolved then some (.reconciling branch) else none }
      else none
  | _, _ => none

/-- `ingest_binary_doc`, up to its loop. -/
def ingestBinaryDoc (task : π) (order : List κ) : Option (BranchDb κ ι η χ π) :=
  match db.call, db.polls task with
  | none, some (.ended id handle) =>
      if order.Nodup ∧ order.toFinset = db.branchSyncStates.keys then
        some { db with
          binaryStates := db.binaryStates.insert id handle
          polls := Function.update db.polls task none
          call := some (.ingesting id handle order) }
      else none
  | _, _ => none

/-- The reconcile that the call has come to. -/
def reconcile (outcome : MergeOutcome) : Option (BranchDb κ ι η χ π) :=
  match db.call with
  | some (.reconciling branch) => db.reconcileThen branch outcome none
  | some (.ingestReconciling id handle branch rest) =>
      db.reconcileThen branch outcome (some (.ingesting id handle rest))
  | _ => none

/-- `commit_fs_changes`, up to its reconcile. -/
def commitFsChanges (branch : κ) (change : χ) (created : Finset ι) :
    Option (BranchDb κ ι η χ π) :=
  match db.call with
  | none => (db.commitToShadow links branch change created).map fun committed =>
      { committed with
        call := some (.reconciling branch)
        created := db.created ∪ created }
  | some _ => none

/-- The nested `with_shadow_document` of a merge. -/
def mergeShadow (source target : κ) : Option (BranchDb κ ι η χ π) :=
  match db.branchSyncStates.lookup source, db.branchSyncStates.lookup target with
  | some sourceSync, some targetSync =>
      match sourceSync.shadowDoc, targetSync.shadowDoc with
      | some sourceDoc, some targetDoc =>
          if source = target then none
          else some { db.setSync target { targetSync with
              shadowDoc := some (targetDoc ∪ sourceDoc) } with
            merging := target :: db.merging }
      | _, _ => none
  | _, _ => none

/-- The tail of a merge takes `branch_sync_states`. -/
def finishMerge (target : κ) : Option (BranchDb κ ι η χ π) :=
  match db.call with
  | none =>
      if target ∈ db.merging then
        some { db with
          merging := db.merging.erase target
          call := if target ∈ db.branchSyncStates then some (.reconciling target) else none }
      else none
  | some _ => none

def clearBranchStates : Option (BranchDb κ ι η χ π) :=
  match db.call with
  | none => some { db with branchSyncStates := ∅, binaryStates := ∅ }
  | some _ => none

def step : SyncAction κ ι η χ π → Option (BranchDb κ ι η χ π)
  | .remoteChange branch changes =>
      some (db.setCanonical branch (db.canonical branch ∪ changes))
  | .trackBranchDocument branch => some { db with notified := insert branch db.notified }
  | .readBranchDocument branch => db.readBranchDocument links branch
  | .trackBinaryDocument task branch id => db.trackBinaryDocument task branch id
  | .lookUp task last => db.lookUp task last
  | .becomeAvailable id handle =>
      if db.available id = none then
        some { db with available := Function.update db.available id (some handle) }
      else none
  | .updateBranchSyncState branch order => db.updateBranchSyncState branch order
  | .ingestBinaryDoc task order => db.ingestBinaryDoc task order
  | .ingestNext => db.ingestNext
  | .tryReconcileBranch outcome => db.reconcile outcome
  | .commitFsChanges branch change created => db.commitFsChanges links branch change created
  | .reinsertHashes branch change => db.commitToShadow links branch change ∅
  | .mergeShadow source target => db.mergeShadow source target
  | .markMerge target change =>
      if target ∈ db.merging then db.commitToShadow links target change ∅ else none
  | .finishMerge target => db.finishMerge target
  | .abandonMerge target =>
      if target ∈ db.merging then some { db with merging := db.merging.erase target } else none
  | .clearBranchStates => db.clearBranchStates

/-- Before anything was ingested: canonical documents as they are, and no tasks. -/
def Fresh : Prop :=
  db.branchSyncStates = ∅ ∧ db.binaryStates = ∅ ∧ db.call = none ∧
    (∀ branch, db.readings branch = none) ∧ db.merging = [] ∧ ∀ task, db.polls task = none

end BranchDb

/-- The branches of a client; `links` gives the documents that the file entries link at
some heads. -/
def syncSystem (links : Finset χ → Finset ι) :
    System (BranchDb κ ι η χ π) (SyncAction κ ι η χ π) where
  start := BranchDb.Fresh
  step := BranchDb.step links

/-! ## What the steps do -/

namespace BranchDb

variable {links : Finset χ → Finset ι} {db next : BranchDb κ ι η χ π}

omit [DecidableEq χ] [DecidableEq π] in
theorem readBranchDocument_eq_some {branch : κ}
    (hstep : db.readBranchDocument links branch = some next) :
    branch ∈ db.notified ∧ db.readings branch = none ∧ next = { db with
      notified := db.notified.erase branch
      readings := Function.update db.readings branch
        (some (db.canonical branch, links (db.canonical branch))) } := by
  obtain ⟨⟨hnotified, hreading⟩, hnext⟩ := Option.ite_none_right_eq_some.mp hstep
  exact ⟨hnotified, hreading, (Option.some.inj hnext).symm⟩

omit [DecidableEq χ] in
theorem trackBinaryDocument_eq_some {task : π} {branch : κ} {id : ι}
    (hstep : db.trackBinaryDocument task branch id = some next) :
    id ∉ db.binaryStates ∧ db.polls task = none ∧
      next = { db with polls := Function.update db.polls task (some (.looking id)) } := by
  unfold trackBinaryDocument at hstep
  split at hstep
  · obtain ⟨⟨-, hunknown, hfree⟩, hnext⟩ := Option.ite_none_right_eq_some.mp hstep
    exact ⟨hunknown, hfree, (Option.some.inj hnext).symm⟩
  · nomatch hstep

omit [DecidableEq χ] in
/-- A lookup goes on looking or ends the poll: with what the repo has, or with nothing. -/
theorem lookUp_eq_some {task : π} {last : Bool} (hstep : db.lookUp task last = some next) :
    ∃ id, db.polls task = some (.looking id) ∧
      (next = db ∨ ∃ handle, db.available id = handle ∧
        next = { db with polls := Function.update db.polls task (some (.ended id handle)) }) := by
  unfold lookUp at hstep
  split at hstep
  · rename_i id hpoll
    split at hstep
    · rename_i handle hhandle
      exact ⟨id, hpoll, .inr ⟨some handle, hhandle, (Option.some.inj hstep).symm⟩⟩
    · rename_i hhandle
      split at hstep
      · exact ⟨id, hpoll, .inr ⟨none, hhandle, (Option.some.inj hstep).symm⟩⟩
      · exact ⟨id, hpoll, .inl (Option.some.inj hstep).symm⟩
  · nomatch hstep

omit [DecidableEq χ] [DecidableEq π] in
theorem updateBranchSyncState_eq_some {branch : κ} {order : List ι}
    (hstep : db.updateBranchSyncState branch order = some next) :
    ∃ heads linked sync, db.call = none ∧ db.readings branch = some (heads, linked) ∧
      order.Nodup ∧ order.toFinset = linked ∧
      sync = ((db.branchSyncStates.lookup branch).getD .new).track db.binaryStates heads order ∧
      next = { db.setSync branch sync with
        readings := Function.update db.readings branch none
        call := if sync.Resolved then some (.reconciling branch) else none } := by
  unfold updateBranchSyncState at hstep
  split at hstep
  · rename_i heads linked hcall hreading
    obtain ⟨⟨hnodup, horder⟩, hnext⟩ := Option.ite_none_right_eq_some.mp hstep
    exact ⟨heads, linked, _, hcall, hreading, hnodup, horder, rfl, (Option.some.inj hnext).symm⟩
  · nomatch hstep

omit [DecidableEq χ] in
theorem ingestBinaryDoc_eq_some {task : π} {order : List κ}
    (hstep : db.ingestBinaryDoc task order = some next) :
    ∃ id handle, db.call = none ∧ db.polls task = some (.ended id handle) ∧
      order.toFinset = db.branchSyncStates.keys ∧ next = { db with
        binaryStates := db.binaryStates.insert id handle
        polls := Function.update db.polls task none
        call := some (.ingesting id handle order) } := by
  unfold ingestBinaryDoc at hstep
  split at hstep
  · rename_i id handle hcall hpoll
    obtain ⟨⟨-, horder⟩, hnext⟩ := Option.ite_none_right_eq_some.mp hstep
    exact ⟨id, handle, hcall, hpoll, horder, (Option.some.inj hnext).symm⟩
  · nomatch hstep

omit [DecidableEq π] in
theorem commitToShadow_eq_some {branch : κ} {change : χ} {created : Finset ι}
    (hstep : db.commitToShadow links branch change created = some next) :
    ∃ sync doc, db.branchSyncStates.lookup branch = some sync ∧ sync.shadowDoc = some doc ∧
      links (insert change doc) ⊆ links doc ∪ created ∧
      next = db.setSync branch { sync with shadowDoc := some (insert change doc) } := by
  obtain ⟨sync, hsync, hstep⟩ := Option.bind_eq_some_iff.mp hstep
  obtain ⟨doc, hdoc, hstep⟩ := Option.bind_eq_some_iff.mp hstep
  obtain ⟨hlinks, hnext⟩ := Option.ite_none_right_eq_some.mp hstep
  exact ⟨sync, doc, hsync, hdoc, hlinks, (Option.some.inj hnext).symm⟩

omit [DecidableEq π] in
theorem commitFsChanges_eq_some {branch : κ} {change : χ} {created : Finset ι}
    (hstep : db.commitFsChanges links branch change created = some next) :
    ∃ committed, db.call = none ∧
      db.commitToShadow links branch change created = some committed ∧
      next = { committed with
        call := some (.reconciling branch)
        created := db.created ∪ created } := by
  unfold commitFsChanges at hstep
  split at hstep
  · rename_i hcall
    obtain ⟨committed, hcommitted, hnext⟩ := Option.map_eq_some_iff.mp hstep
    exact ⟨committed, hcall, hcommitted, hnext.symm⟩
  · nomatch hstep

omit [DecidableEq π] in
theorem mergeShadow_eq_some {source target : κ}
    (hstep : db.mergeShadow source target = some next) :
    ∃ sourceSync targetSync sourceDoc targetDoc,
      db.branchSyncStates.lookup source = some sourceSync ∧
      db.branchSyncStates.lookup target = some targetSync ∧
      sourceSync.shadowDoc = some sourceDoc ∧ targetSync.shadowDoc = some targetDoc ∧
      next = { db.setSync target { targetSync with
          shadowDoc := some (targetDoc ∪ sourceDoc) } with
        merging := target :: db.merging } := by
  unfold mergeShadow at hstep
  split at hstep
  · rename_i sourceSync targetSync hsource htarget
    split at hstep
    · rename_i sourceDoc targetDoc hsourceDoc htargetDoc
      obtain ⟨-, hnext⟩ := Option.ite_none_left_eq_some.mp hstep
      exact ⟨sourceSync, targetSync, sourceDoc, targetDoc, hsource, htarget, hsourceDoc,
        htargetDoc, (Option.some.inj hnext).symm⟩
    · nomatch hstep
  · nomatch hstep

omit [DecidableEq χ] [DecidableEq π] in
theorem finishMerge_eq_some {target : κ} (hstep : db.finishMerge target = some next) :
    db.call = none ∧ target ∈ db.merging ∧ next = { db with
      merging := db.merging.erase target
      call := if target ∈ db.branchSyncStates then some (.reconciling target) else none } := by
  unfold finishMerge at hstep
  split at hstep
  · rename_i hcall
    obtain ⟨hmerging, hnext⟩ := Option.ite_none_right_eq_some.mp hstep
    exact ⟨hcall, hmerging, (Option.some.inj hnext).symm⟩
  · nomatch hstep

omit [DecidableEq χ] [DecidableEq π] in
theorem clearBranchStates_eq_some (hstep : db.clearBranchStates = some next) :
    db.call = none ∧ next = { db with branchSyncStates := ∅, binaryStates := ∅ } := by
  unfold clearBranchStates at hstep
  split at hstep
  · rename_i hcall
    exact ⟨hcall, (Option.some.inj hstep).symm⟩
  · nomatch hstep

omit [DecidableEq π] in
/-- Only a merge can fail, and only a merge writes the canonical document. -/
theorem reconcileThen_eq_some {branch : κ} {outcome : MergeOutcome}
    {rest : Option (SyncCall κ ι η)} (hstep : db.reconcileThen branch outcome rest = some next) :
    ∃ sync result, db.branchSyncStates.lookup branch = some sync ∧
      sync.tryReconcileBranch (db.canonical branch) outcome = result ∧
      next = { (db.setSync branch result.1).setCanonical branch result.2.1 with
        call := if result.2.2 then rest else none } := by
  obtain ⟨sync, hsync, hnext⟩ := Option.map_eq_some_iff.mp hstep
  exact ⟨sync, _, hsync, rfl, hnext.symm⟩

omit [DecidableEq π] in
/-- A reconcile is for a call that has come to it. -/
theorem reconcile_eq_some {outcome : MergeOutcome} (hstep : db.reconcile outcome = some next) :
    (∃ branch, db.call = some (.reconciling branch) ∧
        db.reconcileThen branch outcome none = some next) ∨
      ∃ id handle branch rest, db.call = some (.ingestReconciling id handle branch rest) ∧
        db.reconcileThen branch outcome (some (.ingesting id handle rest)) = some next := by
  unfold reconcile at hstep
  split at hstep
  · rename_i branch hcall
    exact .inl ⟨branch, hcall, hstep⟩
  · rename_i id handle branch rest hcall
    exact .inr ⟨id, handle, branch, rest, hcall, hstep⟩
  · nomatch hstep

omit [DecidableEq χ] [DecidableEq π] in
/-- The next round of an ingest: it is over, or it has a branch to reconcile, or the
branch does not link the document. -/
theorem ingestNext_eq_some (hstep : db.ingestNext = some next) :
    (∃ id handle, db.call = some (.ingesting id handle []) ∧ next = { db with call := none }) ∨
      ∃ id handle branch rest sync, db.call = some (.ingesting id handle (branch :: rest)) ∧
        db.branchSyncStates.lookup branch = some sync ∧
        (id ∈ sync.canonicalBinaryDocs ∧ next = { db.setSync branch { sync with
              canonicalBinaryDocs :=
                sync.canonicalBinaryDocs.insert id (.ofEntry (some handle)) } with
            call := some (.ingestReconciling id handle branch rest) } ∨
          id ∉ sync.canonicalBinaryDocs ∧
            next = { db with call := some (.ingesting id handle rest) }) := by
  unfold ingestNext at hstep
  split at hstep
  · rename_i id handle hcall
    exact .inl ⟨id, handle, hcall, (Option.some.inj hstep).symm⟩
  · rename_i id handle branch rest hcall
    split at hstep
    · rename_i sync hsync
      refine .inr ⟨id, handle, branch, rest, sync, hcall, hsync, ?_⟩
      split at hstep
      · rename_i hlinked
        exact .inl ⟨hlinked, (Option.some.inj hstep).symm⟩
      · rename_i hlinked
        exact .inr ⟨hlinked, (Option.some.inj hstep).symm⟩
    · nomatch hstep
  · nomatch hstep

end BranchDb

namespace BranchSyncState

variable {sync : BranchSyncState ι χ} {canonical : Finset χ} {outcome : MergeOutcome}

@[simp]
theorem canonicalBinaryDocs_tryReconcileBranch :
    (sync.tryReconcileBranch canonical outcome).1.canonicalBinaryDocs =
      sync.canonicalBinaryDocs := by
  unfold tryReconcileBranch
  split
  · cases outcome <;> rfl
  · rfl

theorem tryReconcileBranch_of_not_merges (hmerges : ¬ sync.Merges) :
    sync.tryReconcileBranch canonical outcome = (sync, canonical, true) :=
  if_neg hmerges

/-- A reconcile fails only where it merges. -/
theorem tryReconcileBranch_ok_iff : (sync.tryReconcileBranch canonical outcome).2.2 = true ↔
    (sync.Merges → outcome = .ok) := by
  unfold tryReconcileBranch
  split
  · rename_i hmerges
    cases outcome <;> simp [hmerges]
  · rename_i hmerges
    simp [hmerges]

omit [DecidableEq χ] in
/-- The statuses that `update_branch_sync_state` sets. -/
theorem lookup_track {binaryStates : HashMap ι (Option η)} {heads : Finset χ} {order : List ι}
    {id : ι} {found : BinaryDocStatus}
    (hlookup : (sync.track binaryStates heads order).canonicalBinaryDocs.lookup id =
      some found) : id ∈ order ∧ found = .ofEntry (binaryStates.lookup id) := by
  obtain ⟨listed, hlisted, heq⟩ := List.mem_map.mp (HashMap.mem_of_lookup_collect hlookup)
  cases heq
  exact ⟨hlisted, rfl⟩

end BranchSyncState

/-! ## An ingest in progress has its entry -/

/-- The document that an ingest in progress brings, and the branches that it has not
visited. -/
def SyncCall.visiting : SyncCall κ ι η → Option (ι × Option η × List κ)
  | .reconciling _ => none
  | .ingesting id handle rest => some (id, handle, rest)
  | .ingestReconciling id handle _ rest => some (id, handle, rest)

namespace BranchDb

variable {links : Finset χ → Finset ι} {db next : BranchDb κ ι η χ π}

/-- An ingest in progress has put its document into `binary_states`. -/
def Entered (db : BranchDb κ ι η χ π) : Prop :=
  ∀ call id handle rest, db.call = some call → call.visiting = some (id, handle, rest) →
    db.binaryStates.lookup id = some handle

omit [DecidableEq χ] [DecidableEq π] in
/-- Nothing is claimed of a call that visits nobody. -/
theorem entered_of_not_visiting (hcall : ∀ call, db.call = some call → call.visiting = none) :
    db.Entered := by
  intro call id handle rest hnow hvisiting
  rw [hcall call hnow] at hvisiting
  nomatch hvisiting

omit [DecidableEq π] in
theorem entered_of_reconcileThen {branch : κ} {outcome : MergeOutcome}
    {rest : Option (SyncCall κ ι η)}
    (hrest : ∀ call, rest = some call → ∀ id handle later,
      call.visiting = some (id, handle, later) → db.binaryStates.lookup id = some handle)
    (hstep : db.reconcileThen branch outcome rest = some next) : next.Entered := by
  obtain ⟨sync, result, -, rfl, rfl⟩ := reconcileThen_eq_some hstep
  intro call id handle later hnow hvisiting
  change (if _ then rest else none) = some call at hnow
  split at hnow
  · exact hrest call hnow id handle later hvisiting
  · nomatch hnow

theorem Entered.step (hentered : db.Entered) {action : SyncAction κ ι η χ π}
    (hstep : db.step links action = some next) : next.Entered := by
  cases action with
  | remoteChange branch changes =>
      cases hstep
      exact hentered
  | trackBranchDocument branch =>
      cases hstep
      exact hentered
  | readBranchDocument branch =>
      obtain ⟨-, -, rfl⟩ := readBranchDocument_eq_some hstep
      exact hentered
  | trackBinaryDocument task branch id =>
      obtain ⟨-, -, rfl⟩ := trackBinaryDocument_eq_some hstep
      exact hentered
  | lookUp task last =>
      obtain ⟨id, -, rfl | ⟨handle, -, rfl⟩⟩ := lookUp_eq_some hstep <;> exact hentered
  | becomeAvailable id handle =>
      obtain ⟨-, hnext⟩ := Option.ite_none_right_eq_some.mp hstep
      cases hnext
      exact hentered
  | updateBranchSyncState branch order =>
      obtain ⟨heads, linked, sync, -, -, -, -, -, rfl⟩ := updateBranchSyncState_eq_some hstep
      apply entered_of_not_visiting
      intro call hnow
      obtain ⟨-, hnow⟩ := Option.ite_none_right_eq_some.mp hnow
      cases hnow
      rfl
  | ingestBinaryDoc task order =>
      obtain ⟨id, handle, -, -, -, rfl⟩ := ingestBinaryDoc_eq_some hstep
      intro call other otherHandle rest hnow hvisiting
      cases hnow
      cases hvisiting
      exact Finmap.lookup_insert _
  | ingestNext =>
      rcases ingestNext_eq_some hstep with ⟨id, handle, -, rfl⟩ |
        ⟨id, handle, branch, rest, sync, hcall, -, ⟨-, rfl⟩ | ⟨-, rfl⟩⟩
      · exact entered_of_not_visiting nofun
      · intro call other otherHandle later hnow hvisiting
        cases hnow
        cases hvisiting
        exact hentered _ id handle (branch :: rest) hcall rfl
      · intro call other otherHandle later hnow hvisiting
        cases hnow
        cases hvisiting
        exact hentered _ id handle (branch :: rest) hcall rfl
  | tryReconcileBranch outcome =>
      rcases reconcile_eq_some hstep with ⟨branch, -, hstep⟩ |
        ⟨id, handle, branch, rest, hcall, hstep⟩
      · refine entered_of_reconcileThen (fun _ hnow => ?_) hstep
        nomatch hnow
      · apply entered_of_reconcileThen _ hstep
        intro call hnow other otherHandle later hvisiting
        cases hnow
        cases hvisiting
        exact hentered _ id handle rest hcall rfl
  | commitFsChanges branch change created =>
      obtain ⟨committed, -, -, rfl⟩ := commitFsChanges_eq_some hstep
      apply entered_of_not_visiting
      intro call hnow
      cases hnow
      rfl
  | reinsertHashes branch change =>
      obtain ⟨_, _, _, _, _, rfl⟩ := commitToShadow_eq_some hstep
      exact hentered
  | mergeShadow source target =>
      obtain ⟨_, _, _, _, _, _, _, _, rfl⟩ := mergeShadow_eq_some hstep
      exact hentered
  | markMerge target change =>
      obtain ⟨-, hcommit⟩ := Option.ite_none_right_eq_some.mp hstep
      obtain ⟨_, _, _, _, _, rfl⟩ := commitToShadow_eq_some hcommit
      exact hentered
  | finishMerge target =>
      obtain ⟨-, -, rfl⟩ := finishMerge_eq_some hstep
      apply entered_of_not_visiting
      intro call hnow
      obtain ⟨-, hnow⟩ := Option.ite_none_right_eq_some.mp hnow
      cases hnow
      rfl
  | abandonMerge target =>
      obtain ⟨-, hnext⟩ := Option.ite_none_right_eq_some.mp hstep
      cases hnext
      exact hentered
  | clearBranchStates =>
      obtain ⟨hcall, rfl⟩ := clearBranchStates_eq_some hstep
      apply entered_of_not_visiting
      intro call hnow
      cases hcall.symm.trans hnow

/-- In every run an ingest in progress has its entry. -/
theorem entered_of_reachable {allowed : BranchDb κ ι η χ π → SyncAction κ ι η χ π → Prop}
    (hreach : (syncSystem links).Reachable allowed db) : db.Entered := by
  apply hreach.invariant
  · intro start ⟨_, _, hnone, _⟩
    apply entered_of_not_visiting
    intro call hnow
    cases hnone.symm.trans hnow
  · exact fun _ _ _ hentered _ hstep => hentered.step hstep

end BranchDb

end Backstitch
