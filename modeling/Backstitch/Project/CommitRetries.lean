/-
# Commits that are retried

`SyncFileSystemToAutomerge::commit` compares the files on disk with the hash index of a ref,
reads what differs and commits it under its keys.  It holds the list of pending changes all the
while, so that no event comes in, and clears the list before it commits.  `commit_fs_changes`
merges the canonical document into the shadow document before it returns, and
`DriverInner::commit` then notes the files whose content was normalized.

Several paths can have one key, and several keys can lead to one path; then the one that comes
last counts.  The disk may change after it was scanned; `found` is what is read, and what is there
when the call returns.
-/

import Backstitch.Project.CheckoutMatches

namespace Backstitch

universe u v w x y

variable {σ : Type u} {β : Type v} {δ : Type w} {ι : Type x} {κ : Type y}
  [DecidableEq σ] [DecidableEq δ] [DecidableEq ι] [DecidableEq κ]

namespace KeyedEnv

variable (env : KeyedEnv σ ι κ β δ)

/-- What the traversal has at a path. -/
def scannedAt (scanned : FileTree σ β) : DiskPath σ κ → Option δ
  | .file path => env.getAllFiles scanned path
  | .other _ => none

/-- The hash index under the paths of its keys, in the order in which it is collected. -/
def oldFiles (indexOrder : List (ι × δ)) : HashMap (DiskPath σ κ) δ :=
  HashMap.collect (indexOrder.map fun entry => ⟨env.globalizePath entry.1, entry.2⟩)

/-- `diff`: what differs between the ref and the disk, without the files to be skipped. -/
def commitDiff (scanned : FileTree σ β) (indexOrder : List (ι × δ))
    (skipFiles : HashMap (DiskPath σ κ) δ) (place : DiskPath σ κ) : Option ChangeType :=
  let change := getFileChanges (env.oldFiles indexOrder).lookup (env.scannedAt scanned) place
  match skipFiles.lookup place, env.scannedAt scanned place with
  | some skipHash, some currentHash => if skipHash ≠ currentHash then change else none
  | _, _ => change

/-- `localize_path`, of a path that may lead elsewhere. -/
def localizeAt (localizeOther : κ → ι) : DiskPath σ κ → ι
  | .file path => env.localizePath path
  | .other path => localizeOther path

end KeyedEnv

/-- A call of `commit`, with what it meets. -/
structure CommitCall (σ : Type u) (ι : Type x) (κ : Type y) (β : Type v) (δ : Type w)
    [DecidableEq σ] [DecidableEq δ] [DecidableEq ι] [DecidableEq κ] where
  env : KeyedEnv σ ι κ β δ
  localizeOther : κ → ι
  force : Bool
  /-- The keys of the files with an event. -/
  pendingChanges : List ι
  skipFiles : HashMap (DiskPath σ κ) δ
  scanned : FileTree σ β
  found : FileTree σ β
  foundOther : κ → Option β
  /-- A file that is asked for or read with an error. -/
  readFails : DiskPath σ κ → Bool
  /-- `FileContent::from_buf`, as it is written again. -/
  normalize : β → β
  /-- The files at the ref, unless `get_hash_index` returns an error. -/
  refFiles : Option (FilesAt ι β δ)
  indexOrder : List (ι × δ)
  listsEntries : ∀ files, refFiles = some files → ListsEntries (env.getHashIndex files) indexOrder
  /-- The shadow document when it comes to the commit, if there is one. -/
  shadow : Option (FilesAt ι β δ)
  /-- The files that change when `try_reconcile_branch` merges the canonical document into the
  shadow document; none if it returns an error. -/
  merged : List (ι × Option (FileEntry β δ))
  nodup_merged : (merged.map Prod.fst).Nodup
  /-- The keys of `diff`, in the order in which they are read. -/
  order : List (DiskPath σ κ)
  nodup : order.Nodup
  mem_order : ∀ files, refFiles = some files → ∀ place,
    place ∈ order ↔ env.commitDiff scanned indexOrder skipFiles place ≠ none
  /-- The keys that are committed, in the order in which their hashes are returned. -/
  keyOrder : List ι
  nodup_keys : keyOrder.Nodup
  mem_keyOrder : ∀ key, key ∈ keyOrder ↔
    ∃ place ∈ order, readFails place = false ∧ env.localizeAt localizeOther place = key

structure CommitStatus (δ : Type w) where
  hashBeforeCommit : Option δ
  hashAfterCommit : Option δ

/-- What `commit` leaves and returns. -/
structure CommitResult (σ : Type u) (ι : Type x) (κ : Type y) (β : Type v) (δ : Type w) where
  pendingChanges : List ι
  shadow : Option (FilesAt ι β δ)
  committed : Option (List (DiskPath σ κ × CommitStatus δ))

namespace CommitCall

variable (call : CommitCall σ ι κ β δ)

/-- The key of what is read at a path. -/
def keyAt (place : DiskPath σ κ) : ι := call.env.localizeAt call.localizeOther place

/-- The content that is read at a path, if there is a file. -/
def contentAt (place : DiskPath σ κ) : Option β :=
  (match place with
  | .file path => call.found.files.lookup path
  | .other path => call.foundOther path).map call.normalize

/-- The files of which `get_file_contents` gets the content. -/
def reads : List (DiskPath σ κ) := call.order.filter fun place => !call.readFails place

def getFileContents : List (ι × Option β) :=
  call.reads.map fun place => (call.keyAt place, call.contentAt place)

/-- One of `commit_entries`. -/
def commitEntry (env : ProjectEnv σ β δ) (files : FilesAt ι β δ) (entry : ι × Option β) :
    FilesAt ι β δ :=
  match entry.2 with
  | some content => files.insert entry.1 ⟨[env.toHash content], some content⟩
  | none => files.erase entry.1

/-- A file that a merge changes. -/
def mergeEntry (files : FilesAt ι β δ) (entry : ι × Option (FileEntry β δ)) : FilesAt ι β δ :=
  match entry.2 with
  | some file => files.insert entry.1 file
  | none => files.erase entry.1

/-- `commit_fs_changes`, with the reconcile at its end. -/
def commitFsChanges : Option (FilesAt ι β δ) :=
  call.shadow.map fun files => call.merged.foldl mergeEntry
    (call.getFileContents.foldl (commitEntry call.env.toProjectEnv) files)

/-- The hashes that `commit_fs_changes` returns. -/
def hashes : HashMap ι (Option δ) :=
  HashMap.collect (call.getFileContents.map fun entry => ⟨entry.1, entry.2.map call.env.toHash⟩)

def statusOf (key : ι) : DiskPath σ κ × CommitStatus δ :=
  let place := call.env.globalizePath key
  (place, ⟨call.env.scannedAt call.scanned place, (call.hashes.lookup key).join⟩)

/-- `SyncFileSystemToAutomerge::commit`. -/
def commit : CommitResult σ ι κ β δ :=
  if !call.force && call.pendingChanges.isEmpty then ⟨call.pendingChanges, call.shadow, none⟩
  else
    match call.refFiles with
    | none => ⟨call.pendingChanges, call.shadow, none⟩
    | some _ =>
        if call.order = [] then ⟨[], call.shadow, none⟩
        else
          match call.commitFsChanges with
          | none => ⟨[], call.shadow, none⟩
          | some shadow => ⟨[], some shadow, some (call.keyOrder.map call.statusOf)⟩

end CommitCall

/-- What `DriverInner::commit` notes of one file. -/
def noteStatus {π : Type*} [DecidableEq π] (skipFiles : HashMap π δ)
    (entry : π × CommitStatus δ) : HashMap π δ :=
  match entry.2.hashAfterCommit, entry.2.hashBeforeCommit with
  | some hashAfter, some hashBefore =>
      if hashAfter = hashBefore then skipFiles.erase entry.1
      else (skipFiles.erase entry.1).insert entry.1 hashBefore
  | _, _ => skipFiles.erase entry.1

namespace CommitCall

variable (call : CommitCall σ ι κ β δ)

/-- The files to be skipped once `DriverInner::commit` has returned.  Of two keys under one path,
the later one is noted, like the later one is kept when the map of the paths is collected. -/
def skipFilesAfter : HashMap (DiskPath σ κ) δ :=
  match call.commit.committed with
  | some committed => committed.foldl noteStatus call.skipFiles
  | none => call.skipFiles

/-! ## What is retried -/

/-- `should_ignore`, of a file and the directories that it is in. -/
def Ignored (path : List σ) : Prop :=
  call.env.shouldIgnore path false = true ∨
    ∃ dir ∈ ancestors path, dir ≠ [] ∧ call.env.shouldIgnore dir true = true

/-- The hash of a file on disk. -/
def diskHash (path : List σ) : Option δ := (call.found.files.lookup path).map call.env.toHash

/-- The hash that a document has under a key. -/
def hashIn (shadow : Option (FilesAt ι β δ)) (key : ι) : Option δ :=
  shadow.bind fun files => (files.lookup key).bind call.env.entryHash

/-- A file is to be skipped as it is. -/
def SkippedIn (skipFiles : HashMap (DiskPath σ κ) δ) (path : List σ) : Prop :=
  ∃ hash, call.diskHash path = some hash ∧ skipFiles.lookup (.file path) = some hash

/-- If a file with an event still differs from the branch and is not to be skipped, something is
still pending. -/
def Retries : Prop :=
  ∀ path, call.env.localizePath path ∈ call.pendingChanges → ¬ call.Ignored path →
    call.diskHash path ≠ call.hashIn call.commit.shadow (call.env.localizePath path) →
      ¬ call.SkippedIn call.skipFilesAfter path → call.commit.pendingChanges ≠ []

/-- Something differs from the ref, and the shadow document is there. -/
def Commits : Prop := call.order ≠ [] ∧ call.shadow ≠ none

/-- The file that is read last of those under a key. -/
def lastRead (key : ι) : Option (DiskPath σ κ) :=
  (call.reads.filter fun place => call.keyAt place = key).getLast?

/-- The key that is noted last of those that lead to a file. -/
def lastKey (path : List σ) : Option ι :=
  (call.keyOrder.filter fun key => call.env.globalizePath key = .file path).getLast?

/-- The hash that is committed of what is read at a path. -/
def normalizedHash (place : DiskPath σ κ) : Option δ :=
  (call.contentAt place).map call.env.toHash

/-- Nothing is left to do for a file. -/
inductive Settled (path : List σ) : Prop
  /-- The reconcile changes it to what is on disk. -/
  | merged {entry : Option (FileEntry β δ)} (hcommits : call.Commits)
      (hmerged : (call.env.localizePath path, entry) ∈ call.merged)
      (hhash : call.diskHash path = entry.bind call.env.entryHash)
  /-- What is committed under its key, with the hash that is on disk, is not changed again. -/
  | committed {place : DiskPath σ κ} (hcommits : call.Commits)
      (hmerged : call.env.localizePath path ∉ call.merged.map Prod.fst)
      (hread : call.lastRead (call.env.localizePath path) = some place)
      (hhash : call.diskHash path = call.normalizedHash place)
  /-- Nothing is committed or changed under its key, and it is as the branch has it. -/
  | same (hcommits : call.Commits → call.env.localizePath path ∉ call.merged.map Prod.fst ∧
        call.lastRead (call.env.localizePath path) = none)
      (hsame : call.diskHash path = call.hashIn call.shadow (call.env.localizePath path))
  /-- What is committed under a key that leads to it has another hash than the scan had, which is
  the hash on disk. -/
  | noted {key : ι} {place : DiskPath σ κ} {before after : δ} (hcommits : call.Commits)
      (hkey : call.lastKey path = some key) (hread : call.lastRead key = some place)
      (hafter : call.normalizedHash place = some after) (hne : after ≠ before)
      (hbefore : call.env.getAllFiles call.scanned path = some before)
      (hhash : call.diskHash path = some before)
  /-- No key that leads to it is committed, and it was to be skipped. -/
  | skipped (hcommits : call.Commits → call.lastKey path = none)
      (hskipped : call.SkippedIn call.skipFiles path)

section Outcome

variable {call} {shadow : FilesAt ι β δ}

omit [DecidableEq σ] [DecidableEq δ] [DecidableEq κ] in
theorem lookup_commitEntry_self (env : ProjectEnv σ β δ) (files : FilesAt ι β δ)
    (entry : ι × Option β) :
    (commitEntry env files entry).lookup entry.1 =
      entry.2.map fun content => ⟨[env.toHash content], some content⟩ := by
  unfold commitEntry
  cases entry.2 with
  | none => exact Finmap.lookup_erase _ _
  | some content => exact Finmap.lookup_insert _

omit [DecidableEq σ] [DecidableEq δ] [DecidableEq κ] in
theorem lookup_commitEntry_other (env : ProjectEnv σ β δ) (files : FilesAt ι β δ)
    (entry : ι × Option β) (key : ι) (hkey : key ≠ entry.1) :
    (commitEntry env files entry).lookup key = files.lookup key := by
  unfold commitEntry
  cases entry.2 with
  | none => exact Finmap.lookup_erase_ne hkey
  | some content => exact Finmap.lookup_insert_of_ne _ hkey

omit [DecidableEq δ] in
theorem lookup_mergeEntry_self (files : FilesAt ι β δ) (entry : ι × Option (FileEntry β δ)) :
    (mergeEntry files entry).lookup entry.1 = entry.2 := by
  unfold mergeEntry
  cases entry.2 with
  | none => exact Finmap.lookup_erase _ _
  | some file => exact Finmap.lookup_insert _

omit [DecidableEq δ] in
theorem lookup_mergeEntry_other (files : FilesAt ι β δ) (entry : ι × Option (FileEntry β δ))
    (key : ι) (hkey : key ≠ entry.1) : (mergeEntry files entry).lookup key = files.lookup key := by
  unfold mergeEntry
  cases entry.2 with
  | none => exact Finmap.lookup_erase_ne hkey
  | some file => exact Finmap.lookup_insert_of_ne _ hkey

/-- What is noted under a path, by the hashes before and after. -/
def notedHash : Option δ → Option δ → Option δ
  | some hashAfter, some hashBefore => if hashAfter = hashBefore then none else some hashBefore
  | _, _ => none

section Note

variable {π : Type*} [DecidableEq π]

omit [DecidableEq σ] [DecidableEq ι] [DecidableEq κ] in
theorem lookup_noteStatus_self (skipFiles : HashMap π δ) (entry : π × CommitStatus δ) :
    (noteStatus skipFiles entry).lookup entry.1 =
      notedHash entry.2.hashAfterCommit entry.2.hashBeforeCommit := by
  unfold noteStatus notedHash
  cases entry.2.hashAfterCommit with
  | none => exact Finmap.lookup_erase _ _
  | some hashAfter =>
      cases entry.2.hashBeforeCommit with
      | none => exact Finmap.lookup_erase _ _
      | some hashBefore =>
          dsimp only
          split
          · exact Finmap.lookup_erase _ _
          · exact Finmap.lookup_insert _

omit [DecidableEq σ] [DecidableEq ι] [DecidableEq κ] in
theorem lookup_noteStatus_other (skipFiles : HashMap π δ) (entry : π × CommitStatus δ) (path : π)
    (hpath : path ≠ entry.1) :
    (noteStatus skipFiles entry).lookup path = skipFiles.lookup path := by
  unfold noteStatus
  split
  · split
    · exact Finmap.lookup_erase_ne hpath
    · rw [Finmap.lookup_insert_of_ne _ hpath, Finmap.lookup_erase_ne hpath]
  · exact Finmap.lookup_erase_ne hpath

/-- A hash that is noted is the one before, and that after is another. -/
theorem notedHash_eq_some_iff {after before : Option δ} {hash : δ} :
    notedHash after before = some hash ↔
      before = some hash ∧ ∃ hashAfter, after = some hashAfter ∧ hashAfter ≠ hash := by
  cases after with
  | none => simp [notedHash]
  | some hashAfter =>
      cases before with
      | none => simp [notedHash]
      | some hashBefore =>
          rw [notedHash]
          split
          · rename_i heq
            subst heq
            simp
          · rename_i hne
            simp only [Option.some.injEq, exists_eq_left']
            constructor
            · rintro rfl
              exact ⟨rfl, hne⟩
            · exact fun hboth => hboth.1

end Note

/-! ## What is committed -/

/-- Of what is read under a key, the last is the content of the file that is read last. -/
theorem getLast?_getFileContents (key : ι) :
    (call.getFileContents.filter fun entry => entry.1 = key).getLast? =
      (call.lastRead key).map fun place => (call.keyAt place, call.contentAt place) := by
  rw [getFileContents, List.filter_map, List.getLast?_map]
  rfl

/-- The document that is committed has what is read last under a key. -/
theorem lookup_committed (files : FilesAt ι β δ) (key : ι) :
    (call.getFileContents.foldl (commitEntry call.env.toProjectEnv) files).lookup key =
      ((call.lastRead key).map fun place => (call.contentAt place).map fun content =>
        ⟨[call.env.toHash content], some content⟩).getD (files.lookup key) := by
  have hhit : ∀ (files : FilesAt ι β δ) (entry : ι × Option β), decide (entry.1 = key) = true →
      (commitEntry call.env.toProjectEnv files entry).lookup key =
        entry.2.map fun content => ⟨[call.env.toHash content], some content⟩ := by
    intro files entry hentry
    rw [← of_decide_eq_true hentry]
    exact lookup_commitEntry_self _ files entry
  have hmiss : ∀ (files : FilesAt ι β δ) (entry : ι × Option β), decide (entry.1 = key) = false →
      (commitEntry call.env.toProjectEnv files entry).lookup key = files.lookup key :=
    fun files entry hentry =>
      lookup_commitEntry_other _ files entry key (Ne.symm (of_decide_eq_false hentry))
  rw [HashMap.lookup_foldl_of_last hhit hmiss, getLast?_getFileContents, Option.map_map]
  rfl

/-- The hash that is returned of a key is that of the file that is read last. -/
theorem lookup_hashes (key : ι) :
    (call.hashes.lookup key).join = (call.lastRead key).bind call.normalizedHash := by
  have hentries : (call.getFileContents.map fun entry =>
      (⟨entry.1, entry.2.map call.env.toHash⟩ : Entry ι (Option δ))).filter (fun entry =>
        entry.1 = key) = (call.getFileContents.filter fun entry => entry.1 = key).map fun entry =>
          ⟨entry.1, entry.2.map call.env.toHash⟩ := List.filter_map
  rw [hashes, HashMap.lookup_collect_last, hentries, List.getLast?_map, getLast?_getFileContents]
  cases call.lastRead key with
  | none => rfl
  | some place => rfl

/-- After a commit and the reconcile, a key has what the reconcile changed, or what was committed
last. -/
theorem lookup_commitFsChanges {files : FilesAt ι β δ} (hshadow : call.shadow = some shadow)
    (hfiles : call.commitFsChanges = some files) (key : ι) :
    (∀ entry, (key, entry) ∈ call.merged → files.lookup key = entry) ∧
      (key ∉ call.merged.map Prod.fst → files.lookup key =
        ((call.lastRead key).map fun place => (call.contentAt place).map fun content =>
          ⟨[call.env.toHash content], some content⟩).getD (shadow.lookup key)) := by
  rw [commitFsChanges, hshadow, Option.map_some] at hfiles
  obtain rfl := Option.some.inj hfiles
  obtain ⟨hchanged, hkept⟩ := HashMap.lookup_foldl_of_local lookup_mergeEntry_self
    lookup_mergeEntry_other call.nodup_merged
      (call.getFileContents.foldl (commitEntry call.env.toProjectEnv) shadow)
  refine ⟨fun entry hentry => hchanged (key, entry) hentry, fun hkey => ?_⟩
  rw [hkept key hkey, lookup_committed]

/-- Of the keys that lead to a file, the one that comes last is noted. -/
theorem lookup_foldl_noteStatus (skipFiles : HashMap (DiskPath σ κ) δ) (path : List σ) :
    ((call.keyOrder.map call.statusOf).foldl noteStatus skipFiles).lookup (.file path) =
      ((call.lastKey path).map fun key => notedHash ((call.lastRead key).bind call.normalizedHash)
        (call.env.getAllFiles call.scanned path)).getD (skipFiles.lookup (.file path)) := by
  have hhit : ∀ (skipFiles : HashMap (DiskPath σ κ) δ) (key : ι),
      decide (call.env.globalizePath key = .file path) = true →
        (noteStatus skipFiles (call.statusOf key)).lookup (.file path) =
          notedHash ((call.lastRead key).bind call.normalizedHash)
            (call.env.getAllFiles call.scanned path) := by
    intro skipFiles key hkey
    have hplace : (call.statusOf key).1 = .file path := of_decide_eq_true hkey
    rw [← hplace, lookup_noteStatus_self, ← lookup_hashes, statusOf, of_decide_eq_true hkey]
    rfl
  have hmiss : ∀ (skipFiles : HashMap (DiskPath σ κ) δ) (key : ι),
      decide (call.env.globalizePath key = .file path) = false →
        (noteStatus skipFiles (call.statusOf key)).lookup (.file path) =
          skipFiles.lookup (.file path) :=
    fun skipFiles key hkey =>
      lookup_noteStatus_other _ _ _ (Ne.symm (of_decide_eq_false hkey))
  rw [List.foldl_map, HashMap.lookup_foldl_of_last hhit hmiss]
  rfl

/-! ## What the call leaves -/

/-- The call with an index. -/
theorem commit_of_files {files : FilesAt ι β δ} (hfiles : call.refFiles = some files)
    (hpending : call.pendingChanges ≠ []) : call.commit =
      if call.order = [] then ⟨[], call.shadow, none⟩
      else
        match call.commitFsChanges with
        | none => ⟨[], call.shadow, none⟩
        | some shadow => ⟨[], some shadow, some (call.keyOrder.map call.statusOf)⟩ := by
  have hgoesOn : ¬ (!call.force && call.pendingChanges.isEmpty) = true := by
    rw [List.isEmpty_eq_false_iff.mpr hpending, Bool.and_false]
    exact Bool.false_ne_true
  unfold commit
  rw [if_neg hgoesOn, hfiles]

/-- **Once the index is made, nothing is pending any more.** -/
theorem pendingChanges_commit {files : FilesAt ι β δ} (hfiles : call.refFiles = some files)
    (hpending : call.pendingChanges ≠ []) : call.commit.pendingChanges = [] := by
  rw [commit_of_files hfiles hpending]
  split
  · rfl
  · split
    · rfl
    · rfl

/-- Where something is committed, the call leaves the committed document and notes its hashes. -/
theorem commit_of_commits {refFiles : FilesAt ι β δ} (hfiles : call.refFiles = some refFiles)
    (hpending : call.pendingChanges ≠ []) (hcommits : call.Commits) :
    ∃ shadow files, call.shadow = some shadow ∧ call.commitFsChanges = some files ∧
      call.commit.shadow = some files ∧
      call.skipFilesAfter = (call.keyOrder.map call.statusOf).foldl noteStatus call.skipFiles := by
  obtain ⟨shadow, hshadow⟩ := Option.ne_none_iff_exists'.mp hcommits.2
  obtain ⟨files, hcommitted⟩ : ∃ files, call.commitFsChanges = some files := by
    rw [commitFsChanges, hshadow]
    exact ⟨_, rfl⟩
  have hcommit : call.commit = ⟨[], some files, some (call.keyOrder.map call.statusOf)⟩ := by
    rw [commit_of_files hfiles hpending, if_neg hcommits.1, hcommitted]
  refine ⟨shadow, files, hshadow, hcommitted, by rw [hcommit], ?_⟩
  rw [skipFilesAfter, hcommit]

/-- Otherwise nothing changes. -/
theorem commit_of_not_commits {files : FilesAt ι β δ} (hfiles : call.refFiles = some files)
    (hpending : call.pendingChanges ≠ []) (hcommits : ¬ call.Commits) :
    call.commit.shadow = call.shadow ∧ call.skipFilesAfter = call.skipFiles := by
  have hcommit : call.commit = ⟨[], call.shadow, none⟩ := by
    rw [commit_of_files hfiles hpending]
    split
    · rfl
    · rename_i horder
      rw [commitFsChanges, not_not.mp fun hshadow => hcommits ⟨horder, hshadow⟩]
      rfl
  rw [skipFilesAfter, hcommit]
  exact ⟨rfl, rfl⟩

end Outcome

/-! ## Files that are settled -/

section Settle

variable {call} {files : FilesAt ι β δ} {path : List σ}

/-- A file is as the branch has it afterwards. -/
theorem diskHash_eq_iff (hfiles : call.refFiles = some files)
    (hpending : call.pendingChanges ≠ []) (hcommits : call.Commits) :
    call.diskHash path = call.hashIn call.commit.shadow (call.env.localizePath path) ↔
      (∃ entry, (call.env.localizePath path, entry) ∈ call.merged ∧
        call.diskHash path = entry.bind call.env.entryHash) ∨
      call.env.localizePath path ∉ call.merged.map Prod.fst ∧
        ((∃ place, call.lastRead (call.env.localizePath path) = some place ∧
          call.diskHash path = call.normalizedHash place) ∨
        call.lastRead (call.env.localizePath path) = none ∧
          call.diskHash path = call.hashIn call.shadow (call.env.localizePath path)) := by
  obtain ⟨shadow, committed, hshadow, hcommitted, hlatest, -⟩ :=
    commit_of_commits hfiles hpending hcommits
  obtain ⟨hchanged, hkept⟩ :=
    lookup_commitFsChanges hshadow hcommitted (call.env.localizePath path)
  rw [hlatest, hashIn, Option.bind_some]
  by_cases hmerged : call.env.localizePath path ∈ call.merged.map Prod.fst
  · obtain ⟨⟨_, entry⟩, hentry, hkey⟩ := List.mem_map.mp hmerged
    obtain rfl : _ = call.env.localizePath path := hkey
    rw [hchanged entry hentry]
    constructor
    · exact fun hhash => .inl ⟨entry, hentry, hhash⟩
    · rintro (⟨other, hother, hhash⟩ | ⟨hnot, -⟩)
      · have hsame := (hchanged other hother).symm.trans (hchanged entry hentry)
        rw [hhash, hsame]
      · exact absurd hmerged hnot
  · rw [hkept hmerged, or_iff_right, and_iff_right hmerged, hashIn, hshadow, Option.bind_some]
    swap
    · rintro ⟨entry, hentry, -⟩
      exact hmerged (List.mem_map_of_mem hentry)
    cases call.lastRead (call.env.localizePath path) with
    | none => simp
    | some place =>
        have hhash : ((call.contentAt place).map fun content =>
            (⟨[call.env.toHash content], some content⟩ : FileEntry β δ)).bind call.env.entryHash =
              call.normalizedHash place := by
          rw [normalizedHash]
          cases call.contentAt place with
          | none => rfl
          | some content => rfl
        simp [hhash]

/-- A file is to be skipped afterwards. -/
theorem skippedIn_iff (hfiles : call.refFiles = some files)
    (hpending : call.pendingChanges ≠ []) (hcommits : call.Commits) :
    call.SkippedIn call.skipFilesAfter path ↔
      (∃ key place before after, call.lastKey path = some key ∧ call.lastRead key = some place ∧
        call.normalizedHash place = some after ∧ after ≠ before ∧
        call.env.getAllFiles call.scanned path = some before ∧
        call.diskHash path = some before) ∨
      call.lastKey path = none ∧ call.SkippedIn call.skipFiles path := by
  obtain ⟨-, -, -, -, -, hskip⟩ := commit_of_commits hfiles hpending hcommits
  rw [SkippedIn, hskip]
  simp only [lookup_foldl_noteStatus]
  cases call.lastKey path with
  | none => simp [SkippedIn]
  | some key =>
      simp only [Option.map_some, Option.getD_some, notedHash_eq_some_iff,
        Option.bind_eq_some_iff]
      constructor
      · rintro ⟨hash, hdisk, hscan, after, ⟨place, hread, hafter⟩, hne⟩
        exact .inl ⟨key, place, hash, after, rfl, hread, hafter, hne, hscan, hdisk⟩
      · rintro (⟨_, place, hash, after, ⟨⟩, hread, hafter, hne, hscan, hdisk⟩ | ⟨⟨⟩, -⟩)
        exact ⟨hash, hdisk, hscan, after, ⟨place, hread, hafter⟩, hne⟩

/-- **A file is settled exactly if it is as the branch has it afterwards, or to be skipped.** -/
theorem settled_iff (hfiles : call.refFiles = some files) (hpending : call.pendingChanges ≠ []) :
    call.Settled path ↔
      call.diskHash path = call.hashIn call.commit.shadow (call.env.localizePath path) ∨
        call.SkippedIn call.skipFilesAfter path := by
  by_cases hcommits : call.Commits
  · rw [diskHash_eq_iff hfiles hpending hcommits, skippedIn_iff hfiles hpending hcommits]
    constructor
    · intro hsettled
      cases hsettled with
      | merged _ hmerged hhash => exact .inl (.inl ⟨_, hmerged, hhash⟩)
      | committed _ hmerged hread hhash => exact .inl (.inr ⟨hmerged, .inl ⟨_, hread, hhash⟩⟩)
      | same hkept hsame =>
          obtain ⟨hmerged, hread⟩ := hkept hcommits
          exact .inl (.inr ⟨hmerged, .inr ⟨hread, hsame⟩⟩)
      | noted _ hkey hread hafter hne hbefore hhash =>
          exact .inr (.inl ⟨_, _, _, _, hkey, hread, hafter, hne, hbefore, hhash⟩)
      | skipped hkept hskipped => exact .inr (.inr ⟨hkept hcommits, hskipped⟩)
    · rintro ((⟨entry, hmerged, hhash⟩ | ⟨hmerged, ⟨place, hread, hhash⟩ | ⟨hread, hsame⟩⟩) |
        ⟨key, place, before, after, hkey, hread, hafter, hne, hbefore, hhash⟩ | ⟨hkey, hskipped⟩)
      · exact .merged hcommits hmerged hhash
      · exact .committed hcommits hmerged hread hhash
      · exact .same (fun _ => ⟨hmerged, hread⟩) hsame
      · exact .noted hcommits hkey hread hafter hne hbefore hhash
      · exact .skipped (fun _ => hkey) hskipped
  · obtain ⟨hlatest, hskip⟩ := commit_of_not_commits hfiles hpending hcommits
    rw [hlatest, hskip]
    constructor
    · intro hsettled
      cases hsettled with
      | merged hyes => exact absurd hyes hcommits
      | committed hyes => exact absurd hyes hcommits
      | same _ hsame => exact .inl hsame
      | noted hyes => exact absurd hyes hcommits
      | skipped _ hskipped => exact .inr hskipped
    · rintro (hsame | hskipped)
      · exact .same (fun hyes => absurd hyes hcommits) hsame
      · exact .skipped (fun hyes => absurd hyes hcommits) hskipped

end Settle

/-- A file was changed, and cannot be read when it is to be committed. -/
def lockedFile : CommitCall String (List String) Empty String String where
  env := slashEnv
  localizeOther := nofun
  force := false
  pendingChanges := [["a"]]
  skipFiles := ∅
  scanned := oneFile "new"
  found := oneFile "new"
  foundOther := nofun
  readFails _ := true
  normalize := id
  refFiles := some (oneFileAt "old" (some "old"))
  indexOrder := [(["a"], "old")]
  listsEntries files hfiles := by
    obtain rfl := Option.some.inj hfiles
    refine ⟨List.nodup_singleton _, fun key hash => ?_⟩
    rw [getHashIndex_oneFileAt, List.mem_singleton, Prod.mk.injEq]
    by_cases hkey : key = ["a"]
    · rw [if_pos hkey, and_iff_right hkey, Option.some.injEq]
      exact eq_comm
    · rw [if_neg hkey]
      exact iff_of_false (fun hboth => hkey hboth.1) nofun
  shadow := some (oneFileAt "old" (some "old"))
  merged := []
  nodup_merged := List.nodup_nil
  order := [.file ["a"]]
  nodup := List.nodup_singleton _
  mem_order files hfiles place := by
    obtain ⟨path⟩ | ⟨⟨⟩⟩ := place
    have hscanned : slashEnv.scannedAt (oneFile "new") (.file path) =
        if path = ["a"] then some "new" else none := by
      rw [KeyedEnv.scannedAt, ProjectEnv.getAllFiles_of_visible ⟨rfl, rfl, fun _ _ _ => rfl⟩,
        lookup_oneFile]
      split
      · rfl
      · rfl
    have hindex : (slashEnv.oldFiles [(["a"], "old")]).lookup (.file path) =
        if path = ["a"] then some "old" else none := by
      by_cases hpath : path = ["a"]
      · subst hpath
        rfl
      · rw [if_neg hpath]
        exact (Finmap.lookup_insert_of_ne _ fun heq => hpath (DiskPath.file.inj heq)).trans
          (Finmap.lookup_empty _)
    rw [KeyedEnv.commitDiff, Finmap.lookup_empty, getFileChanges, hindex, hscanned,
      List.mem_singleton, DiskPath.file.injEq]
    by_cases hpath : path = ["a"]
    · simp [hpath]
    · simp [hpath]
  keyOrder := []
  nodup_keys := List.nodup_nil
  mem_keyOrder key := by simp

end CommitCall

end Backstitch
