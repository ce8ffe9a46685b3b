/-
# Checking out a ref

`sync_correct_ref` compares the files on disk with the hash index of a ref and
writes or deletes what differs.  The paths of files are lists of names below the
project directory; a ref has its files under keys, to which `localize_path` and
`globalize_path` lead and from which they lead back, as far as they do.  A hash map
that only lookups see is the partial function it stands for; where the source runs
over one, the order is an argument.

What a file system may answer beyond its files is kept in `ProjectEnv`: which
paths are ignored, which cannot be read, and where writes and removals fail.  The
file index is taken to answer with the hash of the bytes on disk.
-/

import Backstitch.Document.BranchDocument
import Backstitch.Library.FileTree

namespace Backstitch

universe u v w

/-- The surroundings of a project. -/
structure ProjectEnv (σ : Type u) (β : Type v) (δ : Type w) where
  /-- `to_hash`, of the bytes that a file holds or is written with. -/
  toHash : β → δ
  shouldIgnore : List σ → Bool → Bool
  unreadable : List σ → Bool
  refused : List σ → Bool

/-- What a ref holds for one path: the stored hashes, and the content when it can be
read; a linked document may not be there. -/
structure FileEntry (β : Type v) (δ : Type w) where
  hashes : List δ
  content : Option β
  deriving DecidableEq

/-- The files of a branch at one ref, under their keys. -/
abbrev FilesAt (ι : Type u) (β : Type v) (δ : Type w) :=
  HashMap ι (FileEntry β δ)

/-- What is done to one file. -/
inductive FileJob (β : Type v)
  | update (content : β)
  | delete
  deriving DecidableEq

variable {σ : Type u} {β : Type v} {δ : Type w} [DecidableEq σ] [DecidableEq δ]

namespace ProjectEnv

variable (env : ProjectEnv σ β δ)

/-! ## Indexes -/

/-- The traversal meets this path: it enters no ignored directory. -/
def Visible (path : List σ) : Prop :=
  env.unreadable path = false ∧ env.shouldIgnore path false = false ∧
    ∀ dir ∈ ancestors path, dir ≠ [] → env.shouldIgnore dir true = false

instance (path : List σ) : Decidable (env.Visible path) :=
  inferInstanceAs (Decidable (_ ∧ _ ∧ ∀ dir ∈ ancestors path, _))

/-- `get_all_files`: the hashes of the files that the traversal meets. -/
def getAllFiles (disk : FileTree σ β) (path : List σ) : Option δ :=
  if env.Visible path then (disk.files.lookup path).map env.toHash else none

/-- A single stored hash is taken as it is; otherwise the content is hashed, if it
can be read. -/
def entryHash (entry : FileEntry β δ) : Option δ :=
  match entry.hashes with
  | [hash] => some hash
  | _ => entry.content.map env.toHash

/-- `get_hash_index`, where the keys are the paths. -/
def getHashIndex (files : FilesAt (List σ) β δ) (path : List σ) : Option δ :=
  if env.shouldIgnore path false then none else (files.lookup path).bind env.entryHash

end ProjectEnv

/-- `get_files_at_ref`: the content of one file, if it can be read. -/
def getFileAtRef {ι : Type*} [DecidableEq ι] (files : FilesAt ι β δ) (key : ι) : Option β :=
  (files.lookup key).bind FileEntry.content

/-- `get_file_changes`. -/
def getFileChanges {ι : Type*} (before after : ι → Option δ) (key : ι) : Option ChangeType :=
  match before key, after key with
  | none, some _ => some .created
  | some beforeHash, some afterHash =>
      if beforeHash ≠ afterHash then some .modified else none
  | some _, none => some .deleted
  | none, none => none

/-- What is to be done about a change.  A file whose content cannot be read drops out. -/
def changeJob {ι : Type*} (before after : ι → Option δ) (contents : ι → Option β) (key : ι) :
    Option (FileJob β) :=
  match getFileChanges before after key with
  | some .created | some .modified => (contents key).map .update
  | some .deleted => some .delete
  | none => none

namespace ProjectEnv

variable (env : ProjectEnv σ β δ)

/-! ## Jobs at files -/

/-- `compare_hashes`: the file is there with this hash. -/
def compareHashes (disk : FileTree σ β) (path : List σ) (content : β) : Bool :=
  !env.unreadable path && (disk.files.lookup path).map env.toHash = some (env.toHash content)

def handleFileUpdate (path : List σ) (content : β) (disk : FileTree σ β) : FileTree σ β :=
  if env.shouldIgnore path false then disk
  else if env.compareHashes disk path content then disk
  else disk.write env.refused path content

def handleFileDelete (path : List σ) (disk : FileTree σ β) : FileTree σ β :=
  if env.shouldIgnore path false then disk else disk.remove env.refused path

/-- One of the joined futures. -/
def runJob (disk : FileTree σ β) (job : List σ × FileJob β) : FileTree σ β :=
  match job.2 with
  | .update content => env.handleFileUpdate job.1 content disk
  | .delete => env.handleFileDelete job.1 disk

/-- The joined futures, in the order in which they get to run. -/
def runJobs (order : List (List σ × FileJob β)) (disk : FileTree σ β) : FileTree σ β :=
  order.foldl env.runJob disk

end ProjectEnv

/-! ## Keys -/

/-- Where a path leads: to a file of the project, by the names below its directory, or
anywhere else. -/
inductive DiskPath (σ : Type u) (κ : Type v)
  | file (names : List σ)
  | other (path : κ)
  deriving DecidableEq

/-- `localize_path` and `globalize_path`, between the paths of files and the keys of a ref. -/
structure PathKeys (σ : Type u) (ι : Type v) (κ : Type w) where
  localizePath : List σ → ι
  globalizePath : ι → DiskPath σ κ
  /-- What a path was localized to has no more backslashes, nor has what it leads to. -/
  globalize_localize : ∀ path found, globalizePath (localizePath path) = .file found →
    globalizePath (localizePath found) = .file found

namespace PathKeys

variable {ι : Type v} {κ : Type w} (keys : PathKeys σ ι κ)

/-- The key of a path leads back to it. -/
def ComesBack (path : List σ) : Prop :=
  keys.globalizePath (keys.localizePath path) = .file path

instance [DecidableEq κ] (path : List σ) : Decidable (keys.ComesBack path) :=
  inferInstanceAs (Decidable (_ = _))

/-- A key leads to the path of a file, and that back to the key. -/
def Returns (key : ι) : Prop :=
  ∃ path, keys.globalizePath key = .file path ∧ keys.localizePath path = key

end PathKeys

universe x y

/-- A project with the keys of its files. -/
structure KeyedEnv (σ : Type u) (ι : Type x) (κ : Type y) (β : Type v) (δ : Type w)
    [DecidableEq σ] extends ProjectEnv σ β δ, PathKeys σ ι κ where
  ignoresOther : κ → Bool
  /-- What a job at a path that leads elsewhere does to the files of the project. -/
  atOther : κ → FileJob β → FileTree σ β → FileTree σ β
  /-- A write removes no file. -/
  mem_atOther_update : ∀ other content disk path, path ∈ disk.files →
    path ∈ (atOther other (.update content) disk).files
  /-- Where what a path was localized to leads, no file is removed whose own key leads elsewhere:
  it has a backslash, and what was localized has none. -/
  mem_atOther_delete : ∀ source other,
    toPathKeys.globalizePath (toPathKeys.localizePath source) = .other other →
      ∀ disk path, ¬ toPathKeys.ComesBack path → path ∈ disk.files →
        path ∈ (atOther other .delete disk).files

namespace KeyedEnv

variable {ι : Type x} {κ : Type y} [DecidableEq ι] [DecidableEq κ] (env : KeyedEnv σ ι κ β δ)

/-- `should_ignore`, at the path of a key. -/
def ignoresKey (key : ι) : Bool :=
  match env.globalizePath key with
  | .file path => env.shouldIgnore path false
  | .other path => env.ignoresOther path

/-- `get_hash_index`. -/
def getHashIndex (files : FilesAt ι β δ) (key : ι) : Option δ :=
  if env.ignoresKey key then none else (files.lookup key).bind env.entryHash

/-! ## A checkout -/

/-- The files on disk under their keys, in the order in which they are collected. -/
def currentFiles (scanOrder : List (List σ × δ)) : HashMap ι δ :=
  HashMap.collect (scanOrder.map fun entry => ⟨env.localizePath entry.1, entry.2⟩)

/-- `checkout_ref`: the changes to be applied. -/
def checkoutRef (scanOrder : List (List σ × δ)) (goal : FilesAt ι β δ) (key : ι) :
    Option (FileJob β) :=
  changeJob (env.currentFiles scanOrder).lookup (env.getHashIndex goal) (getFileAtRef goal) key

/-- The changes under the paths of their keys, in the order in which they are collected. -/
def joined (changeOrder : List (ι × FileJob β)) : HashMap (DiskPath σ κ) (FileJob β) :=
  HashMap.collect (changeOrder.map fun entry => ⟨env.globalizePath entry.1, entry.2⟩)

/-- One of the joined futures. -/
def runPathJob (disk : FileTree σ β) (job : DiskPath σ κ × FileJob β) : FileTree σ β :=
  match job.1 with
  | .file path => env.runJob disk (path, job.2)
  | .other path => env.atOther path job.2 disk

/-- The joined futures, in the order in which they get to run. -/
def runPathJobs (order : List (DiskPath σ κ × FileJob β)) (disk : FileTree σ β) : FileTree σ β :=
  order.foldl env.runPathJob disk

/-! ## Pending normalizations -/

/-- One round of `resolve_pending_normalized_files`: a file that still has the hash
it was committed with is written as the ref has it. -/
def normalizeFile (files : FilesAt ι β δ) (disk : FileTree σ β) (entry : List σ × δ) :
    FileTree σ β :=
  if env.unreadable entry.1 then disk
  else if (disk.files.lookup entry.1).map env.toHash = some entry.2 then
    match getFileAtRef files (env.localizePath entry.1) with
    | some content => env.handleFileUpdate entry.1 content disk
    | none => disk
  else disk

end KeyedEnv

/-- The order lists every entry of a map once. -/
def ListsEntries {α : Type u} {γ : Type v} (map : α → Option γ) (order : List (α × γ)) : Prop :=
  (order.map Prod.fst).Nodup ∧ ∀ key value, (key, value) ∈ order ↔ map key = some value

/-! ## The sync step -/

/-- What a sync reads and writes: the disk, the checked-out ref and the hashes of
files that wait to be normalized. -/
structure Project (σ : Type u) (β : Type v) (δ : Type w) (ρ : Type w) [DecidableEq σ] where
  disk : FileTree σ β
  checkedOutRef : Option ρ
  pendingNormalizedFiles : HashMap (List σ) δ

variable {ρ : Type w} [DecidableEq ρ] {ι : Type x} {κ : Type y} [DecidableEq ι] [DecidableEq κ]

namespace Project

variable (env : KeyedEnv σ ι κ β δ) (filesAt : ρ → Option (FilesAt ι β δ))
  (project : Project σ β δ ρ)

/-- The changes that `checkout_ref` proposes; none at all when the goal is checked
out already or cannot be read. -/
def proposedChanges (scanOrder : List (List σ × δ)) (goalRef : ρ) :
    Option (ι → Option (FileJob β)) :=
  if project.checkedOutRef = some goalRef then none
  else (filesAt goalRef).map fun goal => env.checkoutRef scanOrder goal

/-- `resolve_pending_normalized_files`, if a ref is checked out and can be read. -/
def resolvePendingNormalizedFiles (normOrder : List (List σ × δ)) : Project σ β δ ρ :=
  match project.checkedOutRef.bind filesAt with
  | none => project
  | some files =>
      if normOrder = [] then project
      else { project with
        disk := normOrder.foldl (env.normalizeFile files) project.disk
        pendingNormalizedFiles := ∅ }

/-- `sync_correct_ref`, when nobody else gets in between: `safe` is the flag that
the editor can be updated; `normOrder`, `scanOrder` and `jobOrder` are the orders in which
the pending files, the files on disk and the proposed changes are taken. -/
def syncCorrectRef (safe : Bool) (goalRef : Option ρ) (normOrder scanOrder : List (List σ × δ))
    (jobOrder : List (DiskPath σ κ × FileJob β)) : Project σ β δ ρ :=
  if safe = false then project
  else
    match goalRef with
    | none => project
    | some goalRef =>
        let resolved := project.resolvePendingNormalizedFiles env filesAt normOrder
        match project.proposedChanges env filesAt scanOrder goalRef with
        | none => resolved
        | some _ => { resolved with
            disk := env.runPathJobs jobOrder resolved.disk
            checkedOutRef := some goalRef }

end Project

end Backstitch
