/-
# Starting a project

Start-up loads the project on the saved branch, and falls back to the main branch where
the saved one is not found.  The local changes are then computed, committed if the user or
the mode says so, and the sync loop starts.  Each of these steps looks its branch up again.
-/

import Backstitch.Branches.SyncStates
import Backstitch.Document.BranchDocument
import Backstitch.Project.CheckoutRequests

namespace Backstitch

universe u v w

/-! ## What is loaded -/

/-- What start-up reads of a branch that was ingested. -/
structure IngestedBranch (χ : Type v) where
  canonicalHeads : Finset χ
  shadowHeads : Option (Finset χ)
  canonicalBinaryDocs : List BinaryDocStatus

inductive DbError (κ : Type u)
  | noMetadataState
  | noBranch (branch : κ)
  | other (message : String)

inductive ProjectLoadServerStatus
  | connected
  | disconnected
  | error

inductive ProjectLoadError (κ : Type u)
  | metadataIdNotFound (serverStatus : ProjectLoadServerStatus)
  | branchDocNotFound (serverStatus : ProjectLoadServerStatus)
  | binaryDocNotFound (serverStatus : ProjectLoadServerStatus)
  | repoStopped
  | db (error : DbError κ)
  | notIngested
  | server (message : String)
  | connection (message : String)

inductive IngestWaitError
  | notTracked
  | timedOut
  | watch

inductive CanonicalBranchStatus
  | pending
  | branchNotIngested
  | binaryDocNotFound
  | healthy

/-- The part of the branch database that start-up reads. -/
structure StartDb (κ : Type u) (χ : Type v) where
  /-- The metadata document and its main branch. -/
  metadataState : Option (κ × κ)
  branchSyncStates : κ → Option (IngestedBranch χ)
  /-- The branch of the last load, if at most binary documents were missing. -/
  loaded : Option κ

variable {κ : Type u} {χ : Type v} {ι : Type w}

namespace StartDb

variable (db : StartDb κ χ)

def empty : StartDb κ χ := ⟨none, fun _ => none, none⟩

/-- The document watcher ingests branches meanwhile.  A shadow document stays. -/
def ingest (branches : κ → Option (IngestedBranch χ)) : StartDb κ χ where
  metadataState := db.metadataState
  branchSyncStates branch :=
    match branches branch, db.branchSyncStates branch with
    | some new, some old => some { new with shadowHeads := new.shadowHeads.or old.shadowHeads }
    | some new, none => some new
    | none, old => old
  loaded := db.loaded

def getMainBranch : Except (DbError κ) κ :=
  match db.metadataState with
  | none => .error .noMetadataState
  | some (_, mainBranch) => .ok mainBranch

def getLatestCanonicalRefOnBranch (branch : κ) : Except (DbError κ) (HistoryRef κ χ) :=
  match db.branchSyncStates branch with
  | none => .error (.noBranch branch)
  | some state => .ok ⟨branch, state.canonicalHeads⟩

def getLatestRefOnBranchOrMain (branch : Option κ) : Except (DbError κ) (HistoryRef κ χ) :=
  match branch with
  | some branch => db.getLatestCanonicalRefOnBranch branch
  | none =>
      match db.getMainBranch with
      | .error error => .error error
      | .ok branch => db.getLatestCanonicalRefOnBranch branch

/-- `wait_for_shadow_doc`, once the wait is over. -/
def hasShadowDoc (branch : κ) : Bool :=
  (db.branchSyncStates branch).any (·.shadowHeads.isSome)

def canonicalBranchStatus (branch : κ) : CanonicalBranchStatus :=
  match db.branchSyncStates branch with
  | none => .branchNotIngested
  | some state =>
      if .failed ∈ state.canonicalBinaryDocs then .binaryDocNotFound
      else if .pending ∈ state.canonicalBinaryDocs then .pending
      else .healthy

end StartDb

/-- What one call of `load_project` meets. -/
structure LoadInput (κ : Type u) (χ : Type v) where
  /-- `repo.find`, unless the repository has stopped. -/
  find : Option Bool
  hasConnection : Bool
  ensureServerConnection : Bool
  findAgain : Option Bool
  waitForBranchIngest : κ → Except IngestWaitError Unit
  /-- The branches that are ingested by the end of the waits. -/
  ingested : κ → Option (IngestedBranch χ)

namespace LoadInput

variable (input : LoadInput κ χ)

def getMetadataHandle : Except (ProjectLoadError κ) Unit :=
  match input.find with
  | none => .error .repoStopped
  | some true => .ok ()
  | some false =>
      if !input.hasConnection then .error (.metadataIdNotFound .disconnected)
      else if !input.ensureServerConnection then .error (.metadataIdNotFound .error)
      else
        match input.findAgain with
        | none => .error .repoStopped
        | some true => .ok ()
        | some false => .error (.metadataIdNotFound .connected)

def serverStatus : ProjectLoadServerStatus :=
  if input.hasConnection then .connected else .disconnected

/-- The database after the document watcher has ingested the metadata document. -/
def dbAfter (metadata : κ × κ) : StartDb κ χ := ⟨some metadata, input.ingested, none⟩

/-- The waits for one branch. -/
def loadBranch (metadata : κ × κ) (branch : κ) : Except (ProjectLoadError κ) Unit :=
  match input.waitForBranchIngest branch with
  | .error .notTracked | .error .timedOut => .error (.branchDocNotFound input.serverStatus)
  | .error .watch => .error .notIngested
  | .ok _ =>
      if !(input.dbAfter metadata).hasShadowDoc branch then .error .notIngested
      else
        match (input.dbAfter metadata).canonicalBranchStatus branch with
        | .pending | .branchNotIngested => .error .notIngested
        | .binaryDocNotFound => .error (.binaryDocNotFound input.serverStatus)
        | .healthy => .ok ()

/-- How `load_project` ends.  The metadata state is there when the main branch is looked
up. -/
def outcome (metadata : κ × κ) (branch : Option κ) : Except (ProjectLoadError κ) Unit :=
  match input.getMetadataHandle with
  | .error error => .error error
  | .ok _ => input.loadBranch metadata (branch.getD metadata.2)

end LoadInput

def MetadataIdNotFound : Except (ProjectLoadError κ) Unit → Bool
  | .error (.metadataIdNotFound _) => true
  | _ => false

def BranchDocNotFound : Except (ProjectLoadError κ) Unit → Bool
  | .error (.branchDocNotFound _) => true
  | _ => false

def BinaryDocNotFound : Except (ProjectLoadError κ) Unit → Bool
  | .error (.binaryDocNotFound _) => true
  | _ => false

/-- Nothing but binary documents is missing. -/
def Usable : Except (ProjectLoadError κ) Unit → Bool
  | .ok _ | .error (.binaryDocNotFound _) => true
  | _ => false

/-- `load_project`. -/
def LoadInput.loadProject (input : LoadInput κ χ) (metadata : κ × κ) (branch : Option κ)
    (db : StartDb κ χ) : Except (ProjectLoadError κ) Unit × StartDb κ χ :=
  (input.outcome metadata branch,
    match input.getMetadataHandle with
    | .error _ => { db with loaded := none }
    | .ok _ =>
        { input.dbAfter metadata with
          loaded :=
            if Usable (input.outcome metadata branch) then some (branch.getD metadata.2)
            else none })

/-! ## Start-up -/

inductive ProjectCreateMode
  | new
  | manuallyLoaded
  | autoLoaded
  deriving DecidableEq

inductive LocalChangesResult
  | checkIn
  | discard

inductive ProjectStartError (κ : Type u)
  | driverLoad (error : ProjectLoadError κ)
  | driverCreate
  | oneshot
  | documentIdNotFound
  | mainBranchNotFound
  | documentIdInvalid

structure LoadSuccess where
  foundLocally : Bool
  foundOnProvidedBranch : Bool

/-- Everything that a start-up meets. -/
structure StartEnv (κ : Type u) (χ : Type v) (ι : Type w) where
  mode : ProjectCreateMode
  /-- A server url is given. -/
  serverUrl : Bool
  projectDocId : Option κ
  /-- The main branch that the metadata document names. -/
  mainBranch : κ
  savedBranchId : Option κ
  driverNew : Bool
  createProject : Except (ProjectLoadError κ) (StartDb κ χ)
  startConnection : Except (ProjectLoadError κ) Unit
  /-- The first load. -/
  locally : LoadInput κ χ
  /-- The load of the main branch without a server. -/
  locallyOnMain : LoadInput κ χ
  /-- The load after the connection was started. -/
  remotely : LoadInput κ χ
  remotelyOnMain : LoadInput κ χ
  /-- What is ingested before the local changes are computed, before they are committed and
  before the sync starts. -/
  beforeChanges : κ → Option (IngestedBranch χ)
  beforeCommit : κ → Option (IngestedBranch χ)
  beforeSync : κ → Option (IngestedBranch χ)
  getHashIndex : HistoryRef κ χ → Except (DbError κ) ι
  /-- `get_file_changes` between an index and the files on disk. -/
  getFileChanges : ι → List (ChangedFile String)
  /-- What the user decides on the local changes, if the question is answered. -/
  answer : Option LocalChangesResult
  /-- The heads that `commit` makes, if it commits anything, and whether files wait to be
  normalized then. -/
  commit : HistoryRef κ χ → Option (Finset χ)
  pendingNormalized : Bool

/-- How a start-up ends. -/
structure Start (κ : Type u) (χ : Type v) where
  /-- The branch whose files were compared with those on disk. -/
  compared : Option κ
  /-- The branch that local changes were committed onto. -/
  committed : Option κ
  result : Except (ProjectStartError κ) (CheckoutState κ χ)

/-- A start-up completes with one branch: the files were compared with it, nothing was
committed onto another, and the first sync checks it out. -/
structure Start.CompletesOn (start : Start κ χ) (branch : κ) : Prop where
  compared : start.compared = some branch
  committed : ∀ onto ∈ start.committed, onto = branch
  checksOut : ∃ state taken ref, start.result = .ok state ∧
    state.getRefForSync = some (taken, ref) ∧ ref.branch = branch

namespace StartEnv

variable (env : StartEnv κ χ ι)

def metadata (metadataId : κ) : κ × κ := (metadataId, env.mainBranch)

/-- The last attempt of both fallbacks. -/
def loadOnMain (metadataId : κ) (input : LoadInput κ χ) (foundLocally : Bool)
    (db : StartDb κ χ) : Except (ProjectStartError κ) LoadSuccess × StartDb κ χ :=
  let (result, db) := input.loadProject (env.metadata metadataId) none db
  match result with
  | .ok _ => (.ok ⟨foundLocally, false⟩, db)
  | .error (.metadataIdNotFound _) => (.error .documentIdNotFound, db)
  | .error (.branchDocNotFound _) => (.error .mainBranchNotFound, db)
  | .error (.binaryDocNotFound _) => (.ok ⟨foundLocally, false⟩, db)
  | .error error => (.error (.driverLoad error), db)

/-- `try_and_retry_load` where there is a server. -/
def retryRemotely (metadataId : κ) (db : StartDb κ χ) :
    Except (ProjectStartError κ) LoadSuccess × StartDb κ χ :=
  match env.startConnection with
  | .error error => (.error (.driverLoad error), db)
  | .ok _ =>
      let (result, db) := env.remotely.loadProject (env.metadata metadataId) env.savedBranchId db
      match result with
      | .ok _ => (.ok ⟨false, true⟩, db)
      | .error (.metadataIdNotFound _) => (.error .documentIdNotFound, db)
      | .error (.branchDocNotFound _) => env.loadOnMain metadataId env.remotelyOnMain false db
      | .error (.binaryDocNotFound _) => (.ok ⟨false, true⟩, db)
      | .error error => (.error (.driverLoad error), db)

def tryAndRetryLoad (metadataId : κ) (db : StartDb κ χ) :
    Except (ProjectStartError κ) LoadSuccess × StartDb κ χ :=
  let (result, db) := env.locally.loadProject (env.metadata metadataId) env.savedBranchId db
  match result with
  | .ok _ => (.ok ⟨true, true⟩, db)
  | .error (.metadataIdNotFound _) =>
      if env.serverUrl then env.retryRemotely metadataId db
      else (.error .documentIdNotFound, db)
  | .error (.branchDocNotFound _) | .error (.binaryDocNotFound _) =>
      if env.serverUrl then env.retryRemotely metadataId db
      else env.loadOnMain metadataId env.locallyOnMain true db
  | .error error => (.error (.driverLoad error), db)

/-- The end of `start_inner`.  An error of the connection is only logged. -/
def startSync (initialBranch compared committed : Option κ)
    (checkedOutRef : Option (HistoryRef κ χ)) (db : StartDb κ χ) : Start κ χ :=
  let db := db.ingest env.beforeSync
  match db.metadataState with
  | none => ⟨compared, committed, .error (.driverLoad (.db .noMetadataState))⟩
  | some (_, mainBranch) =>
      ⟨compared, committed, .ok
        { requestedCheckout := initialBranch
          checkedOutRef
          safeToUpdateEditor := false
          cancelled := false
          shadowHeads branch := (db.branchSyncStates branch).bind (·.shadowHeads)
          mainBranch := some mainBranch
          pendingNormalized := env.pendingNormalized
          phase := .idle }⟩

/-- `commit_local_changes`, and the rest. -/
def commitLocalChanges (initialBranch compared : Option κ) (db : StartDb κ χ) : Start κ χ :=
  let db := db.ingest env.beforeCommit
  match db.getLatestRefOnBranchOrMain initialBranch with
  | .error error => ⟨compared, none, .error (.driverLoad (.db error))⟩
  | .ok ref =>
      env.startSync initialBranch compared (some ref.branch)
        ((env.commit ref).map (HistoryRef.mk ref.branch)) db

/-- What `start_inner` does with the local changes. -/
def checkInLocalChanges (success : LoadSuccess) (initialBranch compared : Option κ)
    (localChanges : List (ChangedFile String)) (db : StartDb κ χ) : Start κ χ :=
  if localChanges = [] then env.startSync initialBranch compared none none db
  else if env.mode = .autoLoaded ∧ success.foundLocally then
    env.commitLocalChanges initialBranch compared db
  else
    match env.answer with
    | none => ⟨compared, none, .error .oneshot⟩
    | some .checkIn => env.commitLocalChanges initialBranch compared db
    | some .discard => env.startSync initialBranch compared none none db

/-- `get_local_changes`, and the rest.  The changes are computed against the saved branch,
whichever branch the load came back with. -/
def getLocalChanges (success : LoadSuccess) (db : StartDb κ χ) : Start κ χ :=
  let initialBranch := if success.foundOnProvidedBranch then env.savedBranchId else none
  let db := db.ingest env.beforeChanges
  match db.getLatestRefOnBranchOrMain env.savedBranchId with
  | .error error => ⟨none, none, .error (.driverLoad (.db error))⟩
  | .ok ref =>
      match env.getHashIndex ref with
      | .error error => ⟨some ref.branch, none, .error (.driverLoad (.db error))⟩
      | .ok index =>
          env.checkInLocalChanges success initialBranch (some ref.branch)
            (env.getFileChanges index) db

/-- `start_inner`. -/
def startInner : Start κ χ :=
  match env.mode, env.projectDocId, env.driverNew with
  | .new, _, true =>
      match env.createProject with
      | .error error => ⟨none, none, .error (.driverLoad error)⟩
      | .ok db => env.checkInLocalChanges ⟨true, false⟩ none none [] db
  | .manuallyLoaded, none, _ | .autoLoaded, none, _ => ⟨none, none, .error .documentIdInvalid⟩
  | .manuallyLoaded, some metadataId, true | .autoLoaded, some metadataId, true =>
      match env.tryAndRetryLoad metadataId .empty with
      | (.error error, _) => ⟨none, none, .error error⟩
      | (.ok success, db) => env.getLocalChanges success db
  | _, _, false => ⟨none, none, .error .driverCreate⟩

/-! ## One branch -/

/-- Whenever the load comes back, start-up completes with the branch that was loaded. -/
def UsesLoadedBranch : Prop :=
  ∀ metadataId success db, env.mode ≠ .new → env.projectDocId = some metadataId →
    env.driverNew = true → env.tryAndRetryLoad metadataId .empty = (.ok success, db) →
    ∃ branch, db.loaded = some branch ∧ env.startInner.CompletesOn branch

/-- The saved branch is not found after the connection either, and the main branch is
loaded. -/
def FallsBackRemotely (metadataId : κ) : Prop :=
  env.startConnection = .ok () ∧
    BranchDocNotFound (env.remotely.outcome (env.metadata metadataId) env.savedBranchId) ∧
    Usable (env.remotelyOnMain.outcome (env.metadata metadataId) none)

/-- The saved branch does not load, and the main branch is loaded instead. -/
def FallsBack (metadataId : κ) : Prop :=
  let first := env.locally.outcome (env.metadata metadataId) env.savedBranchId
  if env.serverUrl then
    (MetadataIdNotFound first ∨ BranchDocNotFound first ∨ BinaryDocNotFound first) ∧
      env.FallsBackRemotely metadataId
  else
    (BranchDocNotFound first ∨ BinaryDocNotFound first) ∧
      Usable (env.locallyOnMain.outcome (env.metadata metadataId) none)

/-- The saved branch has an index to compare the files with, and the user answers where the local
changes are asked about. -/
def SettlesLocalChanges (success : LoadSuccess) (db : StartDb κ χ) : Prop :=
  ∀ ref, (db.ingest env.beforeChanges).getLatestRefOnBranchOrMain env.savedBranchId = .ok ref →
    ∃ index, env.getHashIndex ref = .ok index ∧
      (env.getFileChanges index = [] ∨ (env.mode = .autoLoaded ∧ success.foundLocally = true) ∨
        env.answer ≠ none)

end StartEnv

/-! ## Loads -/

/-- A load came through with this branch. -/
structure LoadedAs (db : StartDb κ χ) (metadata : κ × κ) (branch : κ) : Prop where
  loaded : db.loaded = some branch
  metadataState : db.metadataState = some metadata
  hasShadowDoc : db.hasShadowDoc branch = true

namespace LoadInput

variable {input : LoadInput κ χ} {metadata : κ × κ} {branch : Option κ}

/-- The metadata document alone never lacks binary documents. -/
theorem not_usable_getMetadataHandle {error : ProjectLoadError κ}
    (herror : input.getMetadataHandle = .error error) :
    Usable (.error error : Except (ProjectLoadError κ) Unit) = false := by
  rw [getMetadataHandle] at herror
  split at herror
  · cases herror
    rfl
  · nomatch herror
  · split_ifs at herror
    · cases herror
      rfl
    · cases herror
      rfl
    · split at herror <;> cases herror <;> rfl

theorem hasShadowDoc_of_usable {loadedBranch : κ}
    (husable : Usable (input.loadBranch metadata loadedBranch) = true) :
    (input.dbAfter metadata).hasShadowDoc loadedBranch = true := by
  rw [loadBranch] at husable
  split at husable
  · nomatch husable
  · nomatch husable
  · nomatch husable
  · by_contra hshadow
    rw [if_pos (by simpa using hshadow)] at husable
    nomatch husable

/-- **A load that comes through has the branch and its shadow document.** -/
theorem loadedAs_of_usable (husable : Usable (input.outcome metadata branch) = true)
    (db : StartDb κ χ) :
    LoadedAs (input.loadProject metadata branch db).2 metadata (branch.getD metadata.2) := by
  rw [loadProject, husable]
  cases hhandle : input.getMetadataHandle with
  | error error =>
      rw [outcome, hhandle] at husable
      exact absurd husable (by simp [not_usable_getMetadataHandle hhandle])
  | ok _ =>
      rw [outcome, hhandle] at husable
      exact ⟨rfl, rfl, hasShadowDoc_of_usable husable⟩

end LoadInput

namespace StartEnv

variable {env : StartEnv κ χ ι} {metadataId : κ} {db : StartDb κ χ} {success : LoadSuccess}

/-- The main branch was loaded instead of the saved one. -/
def LoadedOnMain (env : StartEnv κ χ ι) (metadataId : κ)
    (result : Except (ProjectStartError κ) LoadSuccess × StartDb κ χ) : Prop :=
  ∃ success, result.1 = .ok success ∧ success.foundOnProvidedBranch = false ∧
    LoadedAs result.2 (env.metadata metadataId) env.mainBranch

/-- The last attempt comes back exactly where its load comes through. -/
theorem loadOnMain_cases (env : StartEnv κ χ ι) (metadataId : κ) (input : LoadInput κ χ)
    (foundLocally : Bool) (before : StartDb κ χ) :
    (Usable (input.outcome (env.metadata metadataId) none) = true ∧
      env.LoadedOnMain metadataId (env.loadOnMain metadataId input foundLocally before)) ∨
    (Usable (input.outcome (env.metadata metadataId) none) = false ∧
      ∃ error, (env.loadOnMain metadataId input foundLocally before).1 = .error error) := by
  have hresult : (input.loadProject (env.metadata metadataId) none before).1 =
      input.outcome (env.metadata metadataId) none := rfl
  have hloaded (husable : Usable (input.outcome (env.metadata metadataId) none) = true) :
      LoadedAs (input.loadProject (env.metadata metadataId) none before).2
        (env.metadata metadataId) env.mainBranch :=
    LoadInput.loadedAs_of_usable husable before
  rw [loadOnMain]
  cases hload : input.loadProject (env.metadata metadataId) none before with
  | mk result after =>
      rw [hload] at hresult hloaded
      rw [← hresult] at hloaded ⊢
      match result with
      | .ok _ | .error (.binaryDocNotFound _) =>
          exact .inl ⟨rfl, ⟨foundLocally, false⟩, rfl, rfl, hloaded rfl⟩
      | .error (.metadataIdNotFound _) | .error (.branchDocNotFound _) | .error .repoStopped
      | .error (.db _) | .error .notIngested | .error (.server _) | .error (.connection _) =>
          exact .inr ⟨rfl, _, rfl⟩

/-- The saved branch was loaded. -/
def LoadedOnSaved (env : StartEnv κ χ ι) (metadataId : κ)
    (result : Except (ProjectStartError κ) LoadSuccess × StartDb κ χ) : Prop :=
  ∃ success, result.1 = .ok success ∧ success.foundOnProvidedBranch = true ∧
    LoadedAs result.2 (env.metadata metadataId) (env.savedBranchId.getD env.mainBranch)

/-- How the attempts with a server end. -/
theorem retryRemotely_cases (env : StartEnv κ χ ι) (metadataId : κ) (before : StartDb κ χ) :
    (¬ env.FallsBackRemotely metadataId ∧
      env.LoadedOnSaved metadataId (env.retryRemotely metadataId before)) ∨
    (env.FallsBackRemotely metadataId ∧
      env.LoadedOnMain metadataId (env.retryRemotely metadataId before)) ∨
    (¬ env.FallsBackRemotely metadataId ∧
      ∃ error, (env.retryRemotely metadataId before).1 = .error error) := by
  have hresult : (env.remotely.loadProject (env.metadata metadataId) env.savedBranchId before).1 =
      env.remotely.outcome (env.metadata metadataId) env.savedBranchId := rfl
  have hloaded (husable :
      Usable (env.remotely.outcome (env.metadata metadataId) env.savedBranchId) = true) :
      LoadedAs (env.remotely.loadProject (env.metadata metadataId) env.savedBranchId before).2
        (env.metadata metadataId) (env.savedBranchId.getD env.mainBranch) :=
    LoadInput.loadedAs_of_usable husable before
  rw [retryRemotely, FallsBackRemotely]
  cases hconnection : env.startConnection with
  | error error => exact .inr (.inr ⟨nofun, _, rfl⟩)
  | ok _ =>
      cases hload :
        env.remotely.loadProject (env.metadata metadataId) env.savedBranchId before with
      | mk result after =>
          rw [hload] at hresult hloaded
          rw [← hresult] at hloaded ⊢
          match result with
          | .ok _ | .error (.binaryDocNotFound _) =>
              exact .inl
                ⟨fun hfalls => (nomatch hfalls.2.1), ⟨false, true⟩, rfl, rfl, hloaded rfl⟩
          | .error (.branchDocNotFound _) =>
              right
              rcases env.loadOnMain_cases metadataId env.remotelyOnMain false after with
                ⟨husable, hmain⟩ | ⟨husable, herror⟩
              · exact .inl ⟨⟨rfl, rfl, husable⟩, hmain⟩
              · refine .inr ⟨fun hfalls => ?_, herror⟩
                rw [hfalls.2.2] at husable
                nomatch husable
          | .error (.metadataIdNotFound _) | .error .repoStopped | .error (.db _)
          | .error .notIngested | .error (.server _) | .error (.connection _) =>
              exact .inr (.inr ⟨fun hfalls => (nomatch hfalls.2.1), _, rfl⟩)

/-- **The load has the saved branch, or falls back to the main branch, or fails.** -/
theorem tryAndRetryLoad_cases (env : StartEnv κ χ ι) (metadataId : κ) (before : StartDb κ χ) :
    (¬ env.FallsBack metadataId ∧
      env.LoadedOnSaved metadataId (env.tryAndRetryLoad metadataId before)) ∨
    (env.FallsBack metadataId ∧
      env.LoadedOnMain metadataId (env.tryAndRetryLoad metadataId before)) ∨
    (¬ env.FallsBack metadataId ∧
      ∃ error, (env.tryAndRetryLoad metadataId before).1 = .error error) := by
  have hresult : (env.locally.loadProject (env.metadata metadataId) env.savedBranchId before).1 =
      env.locally.outcome (env.metadata metadataId) env.savedBranchId := rfl
  have hloaded (husable :
      Usable (env.locally.outcome (env.metadata metadataId) env.savedBranchId) = true) :
      LoadedAs (env.locally.loadProject (env.metadata metadataId) env.savedBranchId before).2
        (env.metadata metadataId) (env.savedBranchId.getD env.mainBranch) :=
    LoadInput.loadedAs_of_usable husable before
  rw [tryAndRetryLoad, FallsBack]
  cases hload : env.locally.loadProject (env.metadata metadataId) env.savedBranchId before with
  | mk result after =>
      rw [hload] at hresult hloaded
      rw [← hresult] at hloaded ⊢
      cases hurl : env.serverUrl with
      | false =>
          have hmain := env.loadOnMain_cases metadataId env.locallyOnMain true after
          match result with
          | .ok _ =>
              exact .inl ⟨fun hfalls =>
                absurd hfalls.1 (by simp [BranchDocNotFound, BinaryDocNotFound]),
                ⟨true, true⟩, rfl, rfl, hloaded rfl⟩
          | .error (.branchDocNotFound _) | .error (.binaryDocNotFound _) =>
              right
              rcases hmain with ⟨husable, hmain⟩ | ⟨husable, herror⟩
              · exact .inl ⟨⟨by simp [BranchDocNotFound, BinaryDocNotFound], husable⟩, hmain⟩
              · refine .inr ⟨fun hfalls => ?_, herror⟩
                rw [hfalls.2] at husable
                nomatch husable
          | .error (.metadataIdNotFound _) | .error .repoStopped | .error (.db _)
          | .error .notIngested | .error (.server _) | .error (.connection _) =>
              refine .inr (.inr ⟨fun hfalls => absurd hfalls.1 ?_, _, rfl⟩)
              simp [BranchDocNotFound, BinaryDocNotFound]
      | true =>
          have hretry := env.retryRemotely_cases metadataId after
          match result with
          | .ok _ =>
              refine .inl ⟨fun hfalls => absurd hfalls.1 ?_, ⟨true, true⟩, rfl, rfl, hloaded rfl⟩
              simp [MetadataIdNotFound, BranchDocNotFound, BinaryDocNotFound]
          | .error (.branchDocNotFound _) | .error (.binaryDocNotFound _)
          | .error (.metadataIdNotFound _) =>
              rcases hretry with ⟨hfalls, hsaved⟩ | ⟨hfalls, hmain⟩ | ⟨hfalls, herror⟩
              · exact .inl ⟨fun hback => hfalls hback.2, hsaved⟩
              · refine .inr (.inl ⟨⟨?_, hfalls⟩, hmain⟩)
                simp [MetadataIdNotFound, BranchDocNotFound, BinaryDocNotFound]
              · exact .inr (.inr ⟨fun hback => hfalls hback.2, herror⟩)
          | .error .repoStopped | .error (.db _) | .error .notIngested | .error (.server _)
          | .error (.connection _) =>
              refine .inr (.inr ⟨fun hfalls => absurd hfalls.1 ?_, _, rfl⟩)
              simp [MetadataIdNotFound, BranchDocNotFound, BinaryDocNotFound]

end StartEnv

/-! ## The steps after the load -/

namespace LoadedAs

variable {metadata : κ × κ} {branch : κ} {db : StartDb κ χ}

theorem exists_shadow (hloaded : LoadedAs db metadata branch) :
    ∃ state heads, db.branchSyncStates branch = some state ∧ state.shadowHeads = some heads := by
  have hshadow := hloaded.hasShadowDoc
  rw [StartDb.hasShadowDoc] at hshadow
  cases hstate : db.branchSyncStates branch with
  | none =>
      rw [hstate] at hshadow
      nomatch hshadow
  | some state =>
      rw [hstate, Option.any_some] at hshadow
      obtain ⟨heads, hheads⟩ := Option.isSome_iff_exists.mp hshadow
      exact ⟨state, heads, rfl, hheads⟩

/-- What was loaded stays loaded. -/
theorem ingest (hloaded : LoadedAs db metadata branch)
    (branches : κ → Option (IngestedBranch χ)) : LoadedAs (db.ingest branches) metadata branch := by
  obtain ⟨state, heads, hstate, hheads⟩ := hloaded.exists_shadow
  refine ⟨hloaded.loaded, hloaded.metadataState, ?_⟩
  rw [StartDb.hasShadowDoc, StartDb.ingest]
  simp only [hstate]
  cases branches branch with
  | none => simp [hheads]
  | some new => cases hnew : new.shadowHeads <;> simp [hheads, hnew]

/-- Whichever way the branch is asked for, the ref is on it. -/
theorem getLatestRefOnBranchOrMain (hloaded : LoadedAs db metadata branch) {asked : Option κ}
    (hasked : asked.getD metadata.2 = branch) :
    ∃ ref, db.getLatestRefOnBranchOrMain asked = .ok ref ∧ ref.branch = branch := by
  obtain ⟨state, heads, hstate, -⟩ := hloaded.exists_shadow
  have hcanonical :
      db.getLatestCanonicalRefOnBranch branch = .ok ⟨branch, state.canonicalHeads⟩ := by
    rw [StartDb.getLatestCanonicalRefOnBranch, hstate]
  refine ⟨⟨branch, state.canonicalHeads⟩, ?_, rfl⟩
  cases asked with
  | some asked =>
      rw [← hasked] at hcanonical ⊢
      exact hcanonical
  | none =>
      rw [StartDb.getLatestRefOnBranchOrMain, StartDb.getMainBranch, hloaded.metadataState]
      have hmain : metadata.2 = branch := hasked
      rw [← hmain] at hcanonical ⊢
      exact hcanonical

end LoadedAs

/-- A ref that was asked for is on the branch that was asked for. -/
theorem StartDb.branch_of_getLatestRefOnBranch {db : StartDb κ χ} {branch : κ}
    {ref : HistoryRef κ χ} (href : db.getLatestRefOnBranchOrMain (some branch) = .ok ref) :
    ref.branch = branch := by
  rw [StartDb.getLatestRefOnBranchOrMain, StartDb.getLatestCanonicalRefOnBranch] at href
  split at href
  · nomatch href
  · cases href
    rfl

namespace StartEnv

variable {env : StartEnv κ χ ι} {metadata : κ × κ} {branch : κ} {db : StartDb κ χ}

/-- The first sync checks the branch out. -/
theorem completesOn_startSync (hloaded : LoadedAs db metadata branch) {initialBranch : Option κ}
    (hinitial : initialBranch.getD metadata.2 = branch) {committed : Option κ}
    (hcommitted : ∀ onto ∈ committed, onto = branch) {checkedOutRef : Option (HistoryRef κ χ)}
    (hchecked : ∀ ref ∈ checkedOutRef, ref.branch = branch) :
    (env.startSync initialBranch (some branch) committed checkedOutRef db).CompletesOn branch := by
  obtain ⟨state, heads, hstate, hheads⟩ := (hloaded.ingest env.beforeSync).exists_shadow
  have hmetadata := (hloaded.ingest env.beforeSync).metadataState
  rw [startSync, hmetadata]
  refine ⟨rfl, hcommitted, ?_⟩
  cases initialBranch with
  | some initial =>
      obtain rfl : initial = branch := hinitial
      refine ⟨_, some initial, ⟨initial, heads⟩, rfl, ?_, rfl⟩
      simp [CheckoutState.getRefForSync, CheckoutState.latestRefOnBranch, hstate, hheads]
  | none =>
      obtain rfl : metadata.2 = branch := hinitial
      refine ⟨_, none, ⟨metadata.2, heads⟩, rfl, ?_, rfl⟩
      cases checkedOutRef with
      | none => simp [CheckoutState.getRefForSync, CheckoutState.latestRefOnBranch, hstate, hheads]
      | some ref =>
          have href : ref.branch = metadata.2 := hchecked ref rfl
          simp [CheckoutState.getRefForSync, CheckoutState.latestRefOnBranch, href, hstate, hheads]

/-- Committing goes onto the branch that is checked out then. -/
theorem completesOn_commitLocalChanges (hloaded : LoadedAs db metadata branch)
    {initialBranch : Option κ} (hinitial : initialBranch.getD metadata.2 = branch) :
    (env.commitLocalChanges initialBranch (some branch) db).CompletesOn branch := by
  obtain ⟨ref, href, hbranch⟩ :=
    (hloaded.ingest env.beforeCommit).getLatestRefOnBranchOrMain hinitial
  rw [commitLocalChanges, href]
  apply completesOn_startSync (hloaded.ingest env.beforeCommit) hinitial
  · intro onto honto
    rw [← Option.some.inj honto, hbranch]
  · intro checkedOut hcheckedOut
    obtain ⟨heads, -, rfl⟩ := Option.map_eq_some_iff.mp hcheckedOut
    exact hbranch

theorem completesOn_checkInLocalChanges (hloaded : LoadedAs db metadata branch)
    {initialBranch : Option κ} (hinitial : initialBranch.getD metadata.2 = branch)
    {success : LoadSuccess} {localChanges : List (ChangedFile String)}
    (hsettles : localChanges = [] ∨ (env.mode = .autoLoaded ∧ success.foundLocally = true) ∨
      env.answer ≠ none) :
    (env.checkInLocalChanges success initialBranch (some branch) localChanges db).CompletesOn
      branch := by
  have hsync : (env.startSync initialBranch (some branch) none none db).CompletesOn branch :=
    completesOn_startSync hloaded hinitial
      (fun onto honto => absurd honto (Option.not_mem_none onto))
      (fun ref href => absurd href (Option.not_mem_none ref))
  rw [checkInLocalChanges]
  split_ifs with hempty hlocally
  · exact hsync
  · exact completesOn_commitLocalChanges hloaded hinitial
  · split
    · rename_i hanswer
      exact absurd hanswer ((hsettles.resolve_left hempty).resolve_left hlocally)
    · exact completesOn_commitLocalChanges hloaded hinitial
    · exact hsync

/-- **Where the saved branch and the initial branch are the loaded one, and the local changes are
settled, start-up completes on it.** -/
theorem completesOn_getLocalChanges (hloaded : LoadedAs db metadata branch)
    (hsaved : env.savedBranchId.getD metadata.2 = branch) {success : LoadSuccess}
    (hinitial : (if success.foundOnProvidedBranch then env.savedBranchId else none).getD
      metadata.2 = branch)
    (hsettles : env.SettlesLocalChanges success db) :
    (env.getLocalChanges success db).CompletesOn branch := by
  obtain ⟨ref, href, hbranch⟩ :=
    (hloaded.ingest env.beforeChanges).getLatestRefOnBranchOrMain hsaved
  obtain ⟨index, hindex, hanswered⟩ := hsettles ref href
  rw [getLocalChanges]
  simp only [href, hindex, hbranch]
  exact completesOn_checkInLocalChanges (hloaded.ingest env.beforeChanges) hinitial hanswered

/-- A start-up that completes has settled the local changes. -/
theorem settlesLocalChanges_of_ok {success : LoadSuccess} {state : CheckoutState κ χ}
    (hok : (env.getLocalChanges success db).result = .ok state) :
    env.SettlesLocalChanges success db := by
  intro ref href
  rw [getLocalChanges] at hok
  simp only [href] at hok
  split at hok
  · nomatch hok
  · rename_i index hindex
    refine ⟨index, hindex, ?_⟩
    by_contra hunsettled
    obtain ⟨hchanges, hunanswered⟩ := not_or.mp hunsettled
    obtain ⟨hasks, hanswer⟩ := not_or.mp hunanswered
    rw [checkInLocalChanges, if_neg hchanges, if_neg hasks, not_not.mp hanswer] at hok
    nomatch hok

theorem compared_startSync (initialBranch compared committed : Option κ)
    (checkedOutRef : Option (HistoryRef κ χ)) (db : StartDb κ χ) :
    (env.startSync initialBranch compared committed checkedOutRef db).compared = compared := by
  rw [startSync]
  split <;> rfl

theorem compared_commitLocalChanges (initialBranch compared : Option κ) (db : StartDb κ χ) :
    (env.commitLocalChanges initialBranch compared db).compared = compared := by
  rw [commitLocalChanges]
  split
  · rfl
  · exact compared_startSync _ _ _ _ _

theorem compared_checkInLocalChanges (success : LoadSuccess) (initialBranch compared : Option κ)
    (localChanges : List (ChangedFile String)) (db : StartDb κ χ) :
    (env.checkInLocalChanges success initialBranch compared localChanges db).compared =
      compared := by
  rw [checkInLocalChanges]
  split_ifs
  · exact compared_startSync _ _ _ _ _
  · exact compared_commitLocalChanges _ _ _
  · split
    · rfl
    · exact compared_commitLocalChanges _ _ _
    · exact compared_startSync _ _ _ _ _

/-- **Start-up compares the files with the saved branch, if with any.** -/
theorem compared_getLocalChanges {saved : κ} (hsaved : env.savedBranchId = some saved)
    {success : LoadSuccess} {compared : κ}
    (hcompared : (env.getLocalChanges success db).compared = some compared) :
    compared = saved := by
  rw [getLocalChanges, hsaved] at hcompared
  cases href : (db.ingest env.beforeChanges).getLatestRefOnBranchOrMain (some saved) with
  | error error =>
      simp only [href] at hcompared
      nomatch hcompared
  | ok ref =>
      have hbranch := StartDb.branch_of_getLatestRefOnBranch href
      simp only [href] at hcompared
      split at hcompared
      · exact (Option.some.inj hcompared).symm.trans hbranch
      · rw [compared_checkInLocalChanges] at hcompared
        exact (Option.some.inj hcompared).symm.trans hbranch

theorem startInner_eq {metadataId : κ} {success : LoadSuccess} (hmode : env.mode ≠ .new)
    (hid : env.projectDocId = some metadataId) (hdriver : env.driverNew = true)
    (hload : env.tryAndRetryLoad metadataId .empty = (.ok success, db)) :
    env.startInner = env.getLocalChanges success db := by
  rw [startInner, hid, hdriver]
  cases hcase : env.mode with
  | new => exact absurd hcase hmode
  | manuallyLoaded | autoLoaded => simp only [hload]

/-- Whenever the load comes back, it has not fallen back from another branch than the main one,
and the local changes can be settled. -/
def KeepsToSavedBranch (env : StartEnv κ χ ι) : Prop :=
  ∀ metadataId success db, env.mode ≠ .new → env.projectDocId = some metadataId →
    env.driverNew = true → env.tryAndRetryLoad metadataId .empty = (.ok success, db) →
    (env.FallsBack metadataId →
      env.savedBranchId = none ∨ env.savedBranchId = some env.mainBranch) ∧
    env.SettlesLocalChanges success db

/-- **Start-up completes with the loaded branch exactly where the load does not fall back from
another branch than the main one, and the local changes can be settled.** -/
theorem usesLoadedBranch_iff : env.UsesLoadedBranch ↔ env.KeepsToSavedBranch := by
  constructor
  · intro huses metadataId success db hmode hid hdriver hload
    obtain ⟨branch, hbranch, hcompletes⟩ := huses metadataId success db hmode hid hdriver hload
    rw [startInner_eq hmode hid hdriver hload] at hcompletes
    obtain ⟨state, -, -, hok, -⟩ := hcompletes.checksOut
    refine ⟨fun hfalls => ?_, settlesLocalChanges_of_ok hok⟩
    have hcases := env.tryAndRetryLoad_cases metadataId .empty
    rw [hload] at hcases
    rcases hcases with ⟨hnot, -⟩ | ⟨-, found, hfound, -, hloaded⟩ | ⟨hnot, -⟩
    · exact absurd hfalls hnot
    · have hmain : branch = env.mainBranch := Option.some.inj (hbranch.symm.trans hloaded.loaded)
      cases hsaved : env.savedBranchId with
      | none => exact .inl rfl
      | some saved =>
          right
          rw [← hmain, compared_getLocalChanges hsaved hcompletes.compared]
    · exact absurd hfalls hnot
  · intro hcondition metadataId success db hmode hid hdriver hload
    obtain ⟨hkeeps, hsettles⟩ := hcondition metadataId success db hmode hid hdriver hload
    have hcases := env.tryAndRetryLoad_cases metadataId .empty
    rw [hload] at hcases
    rw [startInner_eq hmode hid hdriver hload]
    rcases hcases with ⟨-, found, hfound, hprovided, hloaded⟩ |
      ⟨hfalls, found, hfound, hprovided, hloaded⟩ | ⟨-, error, herror⟩
    · cases hfound
      refine ⟨_, hloaded.loaded, completesOn_getLocalChanges hloaded rfl ?_ hsettles⟩
      rw [if_pos hprovided]
      rfl
    · cases hfound
      refine ⟨_, hloaded.loaded, completesOn_getLocalChanges hloaded ?_ ?_ hsettles⟩
      · rcases hkeeps hfalls with hsaved | hsaved
        · rw [hsaved]
          rfl
        · rw [hsaved]
          rfl
      · rw [hprovided]
        rfl
    · nomatch herror

/-! ## A branch that is gone -/

/-- A local project with the main branch alone. -/
def mainOnly : LoadInput ℕ ℕ where
  find := some true
  hasConnection := false
  ensureServerConnection := false
  findAgain := none
  waitForBranchIngest branch := if branch = 0 then .ok () else .error .notTracked
  ingested branch := if branch = 0 then some ⟨{5}, some {5}, []⟩ else none

/-- The saved branch 1 is not there any more. -/
def lostBranch : StartEnv ℕ ℕ ℕ where
  mode := .autoLoaded
  serverUrl := false
  projectDocId := some 9
  mainBranch := 0
  savedBranchId := some 1
  driverNew := true
  createProject := .error .notIngested
  startConnection := .ok ()
  locally := mainOnly
  locallyOnMain := mainOnly
  remotely := mainOnly
  remotelyOnMain := mainOnly
  beforeChanges _ := none
  beforeCommit _ := none
  beforeSync _ := none
  getHashIndex ref := .ok ref.branch
  getFileChanges _ := []
  answer := none
  commit _ := none
  pendingNormalized := false

/-- The main branch is loaded, and start-up fails on the saved one. -/
theorem not_usesLoadedBranch_lost :
    lostBranch.startInner.result = .error (.driverLoad (.db (.noBranch 1))) ∧
      ¬ lostBranch.UsesLoadedBranch := by
  refine ⟨rfl, fun huses => ?_⟩
  obtain ⟨branch, -, hcompletes⟩ :=
    huses 9 ⟨true, false⟩ _ (by decide) rfl rfl (Prod.ext rfl rfl)
  have hnone : lostBranch.startInner.compared = none := rfl
  exact nomatch hnone.symm.trans hcompletes.compared

end StartEnv

end Backstitch
