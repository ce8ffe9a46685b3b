/-
# The sync loop and the disk

An iteration of the sync loop commits what differs between the disk and the checked-out ref,
takes the latest ref of some branch as its goal, compares the disk with that, waits for the main
thread and then writes.  Files are hashed, read and written one after the other; meanwhile users
edit files, the watcher delivers events, changes of others come into the shadow documents, and
the flag for the editor changes.

A traversal meets each file at some moment, so it carries along what the disk was since it began.
A ref names the files that its heads hold: a commit or a merge that adds something gets heads
that nothing had before.  The reconcile at the end of `commit_fs_changes` is a merge of its own.

The keys of all files are taken to lead back to them, so that a ref has its files under their
paths.  `PairedFiles` compares the steps with the functions that have keys.
-/

import Backstitch.Branches.ForkPoints
import Backstitch.Library.History
import Backstitch.Project.CommitRetries

namespace Backstitch

universe u v w u₁ u₂

/-- The surroundings of a project whose files are normalized when they are read. -/
structure SyncEnv (σ : Type u) (β : Type v) (δ : Type w) extends ProjectEnv σ β δ where
  /-- `FileContent::from_buf`, as it is written again. -/
  normalize : β → β

variable {σ : Type u} {β : Type v} {δ : Type w} {κ : Type u₁} {χ : Type u₂}
  [DecidableEq σ] [DecidableEq δ]

/-! ## Indexes and traversals -/

/-- `get_hash_index`, where the content of some files is missing. -/
def ProjectEnv.getHashIndexWithout (env : ProjectEnv σ β δ) (files : FilesAt (List σ) β δ)
    (missing : List σ → Bool) (path : List σ) : Option δ :=
  if env.shouldIgnore path false then none
  else (files.lookup path).bind fun entry =>
    env.entryHash (if missing path then { entry with content := none } else entry)

/-- `get_files_at_ref` likewise. -/
def getFileWithout (files : FilesAt (List σ) β δ) (missing : List σ → Bool) (path : List σ) :
    Option β :=
  if missing path then none else getFileAtRef files path

/-- The disk at the moment when a traversal meets a file. -/
def momentOf (disk : FileTree σ β) (moments : List (FileTree σ β)) (pick : List σ → ℕ)
    (path : List σ) : FileTree σ β :=
  moments[pick path]?.getD disk

/-- `get_all_files`, while the disk changes. -/
def ProjectEnv.scan (env : ProjectEnv σ β δ) (disk : FileTree σ β)
    (moments : List (FileTree σ β)) (pick : List σ → ℕ) (path : List σ) : Option δ :=
  env.getAllFiles (momentOf disk moments pick path) path

/-- The paths that a traversal or an index can have. -/
def pathsOf (files : FilesAt (List σ) β δ) (disk : FileTree σ β) (moments : List (FileTree σ β)) :
    Finset (List σ) :=
  moments.foldr (fun tree paths => tree.files.keys ∪ paths) (disk.files.keys ∪ files.keys)

/-- `diff`: what differs between an index and a traversal, without the files to be skipped. -/
def commitChanges (index scanned : List σ → Option δ) (skipFiles : HashMap (List σ) δ)
    (path : List σ) : Option ChangeType :=
  match skipFiles.lookup path, scanned path with
  | some skipHash, some currentHash =>
      if skipHash ≠ currentHash then getFileChanges index scanned path else none
  | _, _ => getFileChanges index scanned path

/-- The order lists the paths that change. -/
def ListsChanged (changes : List σ → Option ChangeType) (paths : Finset (List σ))
    (order : List (List σ)) : Prop :=
  order.Nodup ∧ order.toFinset = paths.filter fun path => changes path ≠ none

instance (changes : List σ → Option ChangeType) (paths : Finset (List σ))
    (order : List (List σ)) : Decidable (ListsChanged changes paths order) :=
  inferInstanceAs (Decidable (_ ∧ _))

/-- The job of one changed file; a file whose content cannot be read gets none. -/
def jobOf (changes : List σ → Option ChangeType) (contents : List σ → Option β) (path : List σ) :
    Option (List σ × FileJob β) :=
  match changes path with
  | some .created | some .modified => (contents path).map fun content => (path, .update content)
  | some .deleted => some (path, .delete)
  | none => none

/-- `get_file_contents`, where some reads fail. -/
def SyncEnv.readFile (env : SyncEnv σ β δ) (disk : FileTree σ β) (moments : List (FileTree σ β))
    (pick : List σ → ℕ) (readFails : List σ → Bool) (path : List σ) :
    Option (List σ × Option β) :=
  if readFails path then none
  else some (path, ((momentOf disk moments pick path).files.lookup path).map env.normalize)

/-! ## The loop -/

/-- Where an iteration stands. -/
inductive SyncStage (σ : Type u) (β : Type v) (δ : Type w) (κ : Type u₁) (χ : Type u₂)
    [DecidableEq σ]
  | idle
  /-- `commit` goes through the files. -/
  | scanning (ref : HistoryRef κ χ) (moments : List (FileTree σ β))
  /-- `commit` reads what differs. -/
  | reading (ref : HistoryRef κ χ) (scanned : List σ → Option δ) (order : List (List σ))
      (moments : List (FileTree σ β))
  /-- `sync_correct_ref` begins. -/
  | choosing
  /-- `checkout_ref` goes through the files. -/
  | comparing (goal : HistoryRef κ χ) (checkedOut : Option (HistoryRef κ χ))
      (moments : List (FileTree σ β))
  /-- The main thread is waited for. -/
  | waiting (goal : HistoryRef κ χ) (checkedOut : Option (HistoryRef κ χ))
      (changes : Option (List (List σ × FileJob β)))
  /-- `resolve_pending_normalized_files`; `found` is written next. -/
  | normalizing (goal : HistoryRef κ χ) (changes : Option (List (List σ × FileJob β)))
      (contents : List σ → Option β) (todo : List (Entry (List σ) δ)) (found : Option (List σ × β))
  | writing (goal : HistoryRef κ χ) (jobs : List (List σ × FileJob β))

/-- `commit` keeps the pending changes to itself. -/
def SyncStage.locksPending : SyncStage σ β δ κ χ → Bool
  | .scanning _ _ | .reading _ _ _ _ => true
  | _ => false

/-- A traversal goes on while the disk changes. -/
def SyncStage.watch (disk : FileTree σ β) : SyncStage σ β δ κ χ → SyncStage σ β δ κ χ
  | .scanning ref moments => .scanning ref (moments ++ [disk])
  | .reading ref scanned order moments => .reading ref scanned order (moments ++ [disk])
  | .comparing goal checkedOut moments => .comparing goal checkedOut (moments ++ [disk])
  | phase => phase

structure LoopState (σ : Type u) (β : Type v) (δ : Type w) (κ : Type u₁) (χ : Type u₂)
    [DecidableEq σ] where
  disk : FileTree σ β
  pendingChanges : List (List σ)
  /-- The files that heads name. -/
  filesAt : HistoryRef κ χ → Option (FilesAt (List σ) β δ)
  /-- The heads of the shadow documents that are there. -/
  shadowHeads : κ → Option (Finset χ)
  checkedOutRef : Option (HistoryRef κ χ)
  pendingNormalizedFiles : HashMap (List σ) δ
  safeToUpdateEditor : Bool
  phase : SyncStage σ β δ κ χ

inductive LoopAction (σ : Type u) (β : Type v) (δ : Type w) (κ : Type u₁) (χ : Type u₂)
    [DecidableEq σ]
  /-- A user or a program changes what is at a path. -/
  | edit (path : List σ) (disk : FileTree σ β)
  /-- The watcher delivers an event. -/
  | deliver (path : List σ)
  | setSafeToUpdateEditor (safe : Bool)
  /-- Changes come into a shadow document. -/
  | merge (branch : κ) (heads : Finset χ) (files : FilesAt (List σ) β δ)
  /-- The shadow document of a branch is dropped. -/
  | dropShadow (branch : κ)
  | sync
  /-- `get_hash_index` returns an error. -/
  | failIndex
  | finishScan (pick : List σ → ℕ) (missing : List σ → Bool) (order : List (List σ))
  /-- `commit_fs_changes`, with the heads that a new change gets. -/
  | commit (pick : List σ → ℕ) (readFails : List σ → Bool) (newHeads : Finset χ)
  | choose (branch : κ)
  | noGoal
  /-- `checkout_ref` returns no changes after an error. -/
  | failGoal
  | propose (pick : List σ → ℕ) (missingHashes missing : List σ → Bool) (order : List (List σ))
  /-- The main thread is blocked.  Without an order, the pending files cannot be read. -/
  | pass (missing : List σ → Bool) (order : Option (List (Entry (List σ) δ)))
  | compareHash
  | writeNormalized
  | endNormalizing
  | runJob
  | finish

namespace LoopState

variable (state : LoopState σ β δ κ χ)

/-- `commit_fs_changes` and what `DriverInner::commit` does with its result: the branch gets
these heads, which hold these files. -/
def committed [DecidableEq κ] [DecidableEq χ] (env : SyncEnv σ β δ) (branch : κ)
    (scanned : List σ → Option δ) (contents : List (List σ × Option β)) (heads : Finset χ)
    (files : FilesAt (List σ) β δ) : LoopState σ β δ κ χ :=
  { state with
    pendingChanges := []
    filesAt := Function.update state.filesAt ⟨branch, heads⟩ (some files)
    shadowHeads := Function.update state.shadowHeads branch (some heads)
    checkedOutRef := some ⟨branch, heads⟩
    pendingNormalizedFiles := (contents.map fun entry => (entry.1,
      (⟨scanned entry.1, entry.2.map env.toHash⟩ : CommitStatus δ))).foldl noteStatus
        state.pendingNormalizedFiles
    phase := .choosing }

/-- Nothing is waited for if there is nothing to do. -/
def startWaiting (goal : HistoryRef κ χ) (checkedOut : Option (HistoryRef κ χ))
    (changes : Option (List (List σ × FileJob β))) : LoopState σ β δ κ χ :=
  { state with phase :=
      if changes.isNone && decide (state.pendingNormalizedFiles = ∅) then .idle
      else .waiting goal checkedOut changes }

/-- The checkout proper, if there is one. -/
def startWriting (goal : HistoryRef κ χ) (changes : Option (List (List σ × FileJob β))) :
    LoopState σ β δ κ χ :=
  { state with phase :=
      match changes with
      | none => .idle
      | some jobs => .writing goal jobs }

section Phases

variable {state : LoopState σ β δ κ χ} {goal : HistoryRef κ χ}
  {checkedOut : Option (HistoryRef κ χ)} {changes : Option (List (List σ × FileJob β))}

@[simp] theorem startWaiting_disk :
    (state.startWaiting goal checkedOut changes).disk = state.disk := rfl

@[simp] theorem startWaiting_filesAt :
    (state.startWaiting goal checkedOut changes).filesAt = state.filesAt := rfl

@[simp] theorem startWaiting_checkedOutRef :
    (state.startWaiting goal checkedOut changes).checkedOutRef = state.checkedOutRef := rfl

@[simp] theorem startWaiting_pendingNormalizedFiles :
    (state.startWaiting goal checkedOut changes).pendingNormalizedFiles =
      state.pendingNormalizedFiles := rfl

theorem startWaiting_phase : (state.startWaiting goal checkedOut changes).phase = .idle ∨
    (state.startWaiting goal checkedOut changes).phase = .waiting goal checkedOut changes := by
  unfold startWaiting
  dsimp only
  split
  · exact .inl rfl
  · exact .inr rfl

omit [DecidableEq δ]

@[simp] theorem startWriting_disk : (state.startWriting goal changes).disk = state.disk := rfl

@[simp] theorem startWriting_filesAt :
    (state.startWriting goal changes).filesAt = state.filesAt := rfl

@[simp] theorem startWriting_checkedOutRef :
    (state.startWriting goal changes).checkedOutRef = state.checkedOutRef := rfl

@[simp] theorem startWriting_pendingNormalizedFiles :
    (state.startWriting goal changes).pendingNormalizedFiles =
      state.pendingNormalizedFiles := rfl

theorem startWriting_phase : (state.startWriting goal changes).phase = .idle ∨
    ∃ jobs, changes = some jobs ∧
      (state.startWriting goal changes).phase = .writing goal jobs := by
  cases changes with
  | none => exact .inl rfl
  | some jobs => exact .inr ⟨jobs, rfl, rfl⟩

end Phases

/-- A file that still has the hash it was committed with is to be written. -/
def toNormalize (env : SyncEnv σ β δ) (contents : List σ → Option β) (entry : Entry (List σ) δ) :
    Option (List σ × β) :=
  if env.unreadable entry.1 then none
  else if (state.disk.files.lookup entry.1).map env.toHash = some entry.2 then
    (contents entry.1).map (Prod.mk entry.1)
  else none

section Step

variable [DecidableEq β] [DecidableEq κ] [DecidableEq χ] (env : SyncEnv σ β δ)

/-- `get_file_changes` from the ref to the disk, and what comes of it. -/
def finishScan (ref : HistoryRef κ χ) (moments : List (FileTree σ β)) (pick : List σ → ℕ)
    (missing : List σ → Bool) (order : List (List σ)) : Option (LoopState σ β δ κ χ) :=
  (state.filesAt ref).bind fun files =>
    let scanned := env.scan state.disk moments pick
    let changes := commitChanges (env.getHashIndexWithout files missing) scanned
      state.pendingNormalizedFiles
    if ListsChanged changes (pathsOf files state.disk moments) order then
      if order = [] then some { state with pendingChanges := [], phase := .choosing }
      else some { state with phase := .reading ref scanned order [state.disk] }
    else none

/-- The commit goes to the shadow document as it is by then.  Its heads stay if nothing changes
there, and are new otherwise. -/
def commit (ref : HistoryRef κ χ) (scanned : List σ → Option δ)
    (contents : List (List σ × Option β)) (newHeads : Finset χ) :
    Option (LoopState σ β δ κ χ) :=
  match state.shadowHeads ref.branch with
  | none => some { state with pendingChanges := [], phase := .choosing }
  | some heads => (state.filesAt ⟨ref.branch, heads⟩).bind fun files =>
      let stored := contents.foldl (CommitCall.commitEntry env.toProjectEnv) files
      if state.filesAt ⟨ref.branch, newHeads⟩ = none ∨ newHeads = heads ∧ stored = files then
        some (state.committed env ref.branch scanned contents newHeads stored)
      else none

/-- `get_ref_for_sync`, and `checkout_ref` up to its traversal. -/
def choose (branch : κ) : Option (LoopState σ β δ κ χ) :=
  if state.safeToUpdateEditor then
    (state.shadowHeads branch).map fun heads =>
      if state.checkedOutRef = some ⟨branch, heads⟩ then
        state.startWaiting ⟨branch, heads⟩ state.checkedOutRef none
      else { state with phase := .comparing ⟨branch, heads⟩ state.checkedOutRef [state.disk] }
  else some { state with phase := .idle }

/-- `get_file_changes` from the disk to the goal, and the jobs that come of it. -/
def propose (goal : HistoryRef κ χ) (checkedOut : Option (HistoryRef κ χ))
    (moments : List (FileTree σ β)) (pick : List σ → ℕ) (missingHashes missing : List σ → Bool)
    (order : List (List σ)) : Option (LoopState σ β δ κ χ) :=
  (state.filesAt goal).bind fun files =>
    let changes := getFileChanges (env.scan state.disk moments pick)
      (env.getHashIndexWithout files missingHashes)
    if ListsChanged changes (pathsOf files state.disk moments) order then
      some (state.startWaiting goal checkedOut
        (some (order.filterMap (jobOf changes (getFileWithout files missing)))))
    else none

/-- What is checked once the main thread is blocked. -/
def pass (goal : HistoryRef κ χ) (checkedOut : Option (HistoryRef κ χ))
    (changes : Option (List (List σ × FileJob β))) (missing : List σ → Bool)
    (order : Option (List (Entry (List σ) δ))) : Option (LoopState σ β δ κ χ) :=
  if state.checkedOutRef ≠ checkedOut ∨ state.safeToUpdateEditor = false then
    some { state with phase := .idle }
  else
    match checkedOut, order with
    | some ref, some order => (state.filesAt ref).bind fun files =>
        if (order : Multiset (Entry (List σ) δ)) = state.pendingNormalizedFiles.entries then
          some { state with
            phase := .normalizing goal changes (getFileWithout files missing) order none }
        else none
    | _, _ => some (state.startWriting goal changes)

def step : LoopAction σ β δ κ χ → Option (LoopState σ β δ κ χ)
  | .edit path disk =>
      if disk.files.erase path = state.disk.files.erase path then
        some { state with disk := disk, phase := state.phase.watch disk }
      else none
  | .deliver path =>
      if state.phase.locksPending then none
      else some { state with pendingChanges := state.pendingChanges ++ [path] }
  | .setSafeToUpdateEditor safe => some { state with safeToUpdateEditor := safe }
  | .merge branch heads files =>
      if state.filesAt ⟨branch, heads⟩ = none ∨ state.filesAt ⟨branch, heads⟩ = some files then
        some { state with
          filesAt := Function.update state.filesAt ⟨branch, heads⟩ (some files)
          shadowHeads := Function.update state.shadowHeads branch (some heads) }
      else none
  | .dropShadow branch =>
      some { state with shadowHeads := Function.update state.shadowHeads branch none }
  | .sync =>
      match state.phase with
      | .idle =>
          match state.checkedOutRef with
          | none => some { state with phase := .choosing }
          | some ref =>
              if state.pendingChanges = [] then some { state with phase := .choosing }
              else some { state with phase := .scanning ref [state.disk] }
      | _ => none
  | .failIndex =>
      match state.phase with
      | .scanning _ _ => some { state with phase := .choosing }
      | _ => none
  | .finishScan pick missing order =>
      match state.phase with
      | .scanning ref moments => state.finishScan env ref moments pick missing order
      | _ => none
  | .commit pick readFails newHeads =>
      match state.phase with
      | .reading ref scanned order moments =>
          state.commit env ref scanned
            (order.filterMap (env.readFile state.disk moments pick readFails)) newHeads
      | _ => none
  | .choose branch =>
      match state.phase with
      | .choosing => state.choose branch
      | _ => none
  | .noGoal =>
      match state.phase with
      | .choosing => some { state with phase := .idle }
      | _ => none
  | .failGoal =>
      match state.phase with
      | .comparing goal checkedOut _ => some (state.startWaiting goal checkedOut none)
      | _ => none
  | .propose pick missingHashes missing order =>
      match state.phase with
      | .comparing goal checkedOut moments =>
          state.propose env goal checkedOut moments pick missingHashes missing order
      | _ => none
  | .pass missing order =>
      match state.phase with
      | .waiting goal checkedOut changes => state.pass goal checkedOut changes missing order
      | _ => none
  | .compareHash =>
      match state.phase with
      | .normalizing goal changes contents (entry :: todo) none => some { state with
          phase := .normalizing goal changes contents todo (state.toNormalize env contents entry) }
      | _ => none
  | .writeNormalized =>
      match state.phase with
      | .normalizing goal changes contents todo (some (path, content)) => some { state with
          disk := env.handleFileUpdate path content state.disk
          phase := .normalizing goal changes contents todo none }
      | _ => none
  | .endNormalizing =>
      match state.phase with
      | .normalizing goal changes _ [] none =>
          some ({ state with pendingNormalizedFiles := ∅ }.startWriting goal changes)
      | _ => none
  | .runJob =>
      match state.phase with
      | .writing goal (job :: jobs) =>
          some { state with disk := env.runJob state.disk job, phase := .writing goal jobs }
      | _ => none
  | .finish =>
      match state.phase with
      | .writing goal [] => some { state with checkedOutRef := some goal, phase := .idle }
      | _ => none

end Step

end LoopState

/-- The loop begins with whatever is there. -/
def loopSystem [DecidableEq β] [DecidableEq κ] [DecidableEq χ] (env : SyncEnv σ β δ) :
    System (LoopState σ β δ κ χ) (LoopAction σ β δ κ χ) where
  start state := state.phase = .idle
  step state action := state.step env action

end Backstitch
