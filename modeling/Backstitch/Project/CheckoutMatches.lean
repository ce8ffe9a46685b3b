/-
# When a checkout leaves the disk as the ref has it

`sync_correct_ref` sets the checked-out ref whatever became of its jobs.
`CheckoutLands` says which inputs make all of them take effect, and it is exact:
after a sync that set the ref, the files on disk are those of the ref precisely
on these inputs.

Where every path and every key leads to the other and back, the changes under keys
are changes of files (`JobsLand`); a file whose key leads elsewhere is never removed.
-/

import Backstitch.Library.RustText
import Backstitch.Project.Checkout

namespace Backstitch

universe u v w x y

variable {σ : Type u} {β : Type v} {δ : Type w} {ρ : Type w} {ι : Type x} {κ : Type y}
  [DecidableEq σ] [DecidableEq δ] [DecidableEq ι]

/-- Wherever the second entry stands in the order, the first one stands before it. -/
def Precedes {α : Type u} (order : List α) (first second : α) : Prop :=
  ∀ before after, order = before ++ second :: after → first ∈ before

namespace KeyedEnv

variable [DecidableEq κ] (env : KeyedEnv σ ι κ β δ)

/-- **The disk is as a ref has it**: every file has its hash under a key that leads back to it,
and every key of the index leads to a file with its hash. -/
structure Matches (disk : FileTree σ β) (goal : FilesAt ι β δ) : Prop where
  files : ∀ path hash, env.getAllFiles disk path = some hash →
    env.ComesBack path ∧ env.getHashIndex goal (env.localizePath path) = some hash
  keys : ∀ key hash, env.getHashIndex goal key = some hash →
    ∃ path, env.globalizePath key = .file path ∧ env.localizePath path = key ∧
      env.getAllFiles disk path = some hash

/-- The hash that a ref has for the file at a path. -/
def hashAt (files : FilesAt ι β δ) (path : List σ) : Option δ :=
  if env.ComesBack path then env.getHashIndex files (env.localizePath path) else none

/-- The content that a ref has for the file at a path. -/
def contentAt (files : FilesAt ι β δ) (path : List σ) : Option β :=
  if env.ComesBack path then getFileAtRef files (env.localizePath path) else none

end KeyedEnv

/-- The jobs at files of the project. -/
def fileJobs (order : List (DiskPath σ κ × FileJob β)) : List (List σ × FileJob β) :=
  order.filterMap fun job =>
    match job.1 with
    | .file path => some (path, job.2)
    | .other _ => none

namespace Project

variable (env : KeyedEnv σ ι κ β δ) (filesAt : ρ → Option (FilesAt ι β δ))
  (project : Project σ β δ ρ)

/-- A pending normalization rewrites this file with this content. -/
def NormalizesTo (path : List σ) (content : β) : Prop :=
  ∃ files old, project.checkedOutRef.bind filesAt = some files ∧
    project.disk.files.lookup path = some old ∧
    project.pendingNormalizedFiles.lookup path = some (env.toHash old) ∧
    getFileAtRef files (env.localizePath path) = some content ∧
    env.toHash content ≠ env.toHash old ∧
    env.unreadable path = false ∧ env.shouldIgnore path false = false ∧
    env.refused path = false

/-- Every file that the index does not have can be removed, and every file that it
has can get there in this order. -/
structure JobsLand (index : List σ → Option δ) (contents : List σ → Option β)
    (jobOrder : List (List σ × FileJob β)) : Prop where
  /-- Files that have to go can be removed. -/
  removed : ∀ path, env.getAllFiles project.disk path ≠ none →
    index path = none → env.refused path = false
  /-- The traversal meets the files of the goal. -/
  visible : ∀ path, index path ≠ none → env.Visible path
  /-- No file of the goal is a directory, or lies below another one. -/
  apart : ∀ path, index path ≠ none → path ∉ project.disk.dirs ∧
    ∀ ancestor ∈ ancestors path, index ancestor = none
  /-- A file that has the goal's hash keeps it. -/
  kept : ∀ path old, project.disk.files.lookup path = some old →
    index path = some (env.toHash old) →
    ∀ content, ¬ project.NormalizesTo env filesAt path content
  /-- A file with another hash is rewritten with content that has the goal's. -/
  rewritten : ∀ path old hash, project.disk.files.lookup path = some old →
    index path = some hash → env.toHash old ≠ hash →
    (∃ content, contents path = some content ∧ env.toHash content = hash ∧
      env.refused path = false) ∨
    contents path = none ∧
      ∃ content, project.NormalizesTo env filesAt path content ∧ env.toHash content = hash
  /-- A file that is missing is created with content that has the goal's hash, and
  every file in the way goes first. -/
  created : ∀ path hash, project.disk.files.lookup path = none →
    index path = some hash →
    ∃ content, contents path = some content ∧ env.toHash content = hash ∧
      env.refused path = false ∧
      ∀ ancestor ∈ ancestors path, ancestor ∈ project.disk.files →
        env.refused ancestor = false ∧
          Precedes jobOrder (ancestor, .delete) (path, .update content)

variable [DecidableEq κ] in
/-- The keys of the goal and those of the files on disk lead to files and back, and every job
takes effect. -/
structure CheckoutLands (goal : FilesAt ι β δ) (jobOrder : List (DiskPath σ κ × FileJob β)) :
    Prop where
  returns : ∀ key, env.getHashIndex goal key ≠ none → env.Returns key
  comesBack : ∀ path, env.getAllFiles project.disk path ≠ none → env.ComesBack path
  lands : project.JobsLand env filesAt (env.hashAt goal) (env.contentAt goal) (fileJobs jobOrder)

end Project

/-! ## What the indexes say -/

namespace ProjectEnv

variable {env : ProjectEnv σ β δ} {disk : FileTree σ β} {path : List σ}

omit [DecidableEq δ] in
theorem getAllFiles_eq_some_iff {hash : δ} : env.getAllFiles disk path = some hash ↔
    env.Visible path ∧ ∃ content, disk.files.lookup path = some content ∧
      env.toHash content = hash := by
  unfold getAllFiles
  by_cases hvisible : env.Visible path
  · rw [if_pos hvisible, Option.map_eq_some_iff]
    exact (and_iff_right hvisible).symm
  · rw [if_neg hvisible]
    exact iff_of_false nofun fun hboth => hvisible hboth.1

omit [DecidableEq δ] in
theorem getAllFiles_of_visible (hvisible : env.Visible path) :
    env.getAllFiles disk path = (disk.files.lookup path).map env.toHash :=
  if_pos hvisible

end ProjectEnv

section Changes

variable {α : Type*} {before after : α → Option δ} {contents : α → Option β} {key : α}

/-- What is deleted is what there was and is no more. -/
theorem changeJob_eq_delete_iff : changeJob before after contents key = some .delete ↔
    before key ≠ none ∧ after key = none := by
  unfold changeJob getFileChanges
  cases before key with
  | none => cases after key <;> simp
  | some beforeHash =>
      cases after key with
      | none => simp
      | some afterHash => by_cases heq : beforeHash = afterHash <;> simp [heq]

/-- What is updated is what can be read and had not this hash before. -/
theorem changeJob_eq_update_iff {content : β} :
    changeJob before after contents key = some (.update content) ↔
      ∃ hash, after key = some hash ∧ before key ≠ some hash ∧ contents key = some content := by
  unfold changeJob getFileChanges
  cases before key with
  | none => cases after key <;> simp
  | some beforeHash =>
      cases after key with
      | none => simp
      | some afterHash => by_cases heq : beforeHash = afterHash <;> simp [heq]

theorem changeJob_eq_none_of_eq (hsame : before key = after key) :
    changeJob before after contents key = none := by
  unfold changeJob getFileChanges
  rw [hsame]
  cases after key <;> simp

/-- A file whose content cannot be read gets no job. -/
theorem changeJob_eq_none_of_contents (hcontents : contents key = none)
    (hafter : after key ≠ none) : changeJob before after contents key = none := by
  cases hjob : changeJob before after contents key with
  | none => rfl
  | some job =>
      cases job with
      | update content =>
          obtain ⟨_, _, _, hcontent⟩ := changeJob_eq_update_iff.mp hjob
          rw [hcontents] at hcontent
          nomatch hcontent
      | delete => exact absurd (changeJob_eq_delete_iff.mp hjob).2 hafter

/-- What has a job changes. -/
theorem getFileChanges_ne_none (hjob : changeJob before after contents key ≠ none) :
    getFileChanges before after key ≠ none := by
  intro hsame
  rw [changeJob, hsame] at hjob
  exact hjob rfl

/-- What changes was there before or is there after. -/
theorem ne_none_of_getFileChanges (hchange : getFileChanges before after key ≠ none) :
    before key ≠ none ∨ after key ≠ none := by
  by_contra hneither
  obtain ⟨hbefore, hafter⟩ := not_or.mp hneither
  rw [getFileChanges, not_not.mp hbefore, not_not.mp hafter] at hchange
  exact hchange rfl

end Changes

namespace ProjectEnv

variable {env : ProjectEnv σ β δ} {disk : FileTree σ β} {path : List σ}

/-! ## What a job does -/

theorem lookup_handleFileUpdate_of_ne {other : List σ} {content : β} (hne : other ≠ path) :
    (env.handleFileUpdate path content disk).files.lookup other = disk.files.lookup other := by
  unfold handleFileUpdate
  split
  · rfl
  · split
    · rfl
    · rw [FileTree.lookup_write, if_neg fun hboth => hne hboth.1]

theorem lookup_runJob_of_ne {job : List σ × FileJob β} {other : List σ} (hne : other ≠ job.1) :
    (env.runJob disk job).files.lookup other = disk.files.lookup other := by
  obtain ⟨path, action⟩ := job
  cases action with
  | update content => exact lookup_handleFileUpdate_of_ne hne
  | delete =>
      show (env.handleFileDelete path disk).files.lookup other = _
      unfold handleFileDelete
      split
      · rfl
      · rw [FileTree.lookup_remove, if_neg fun hboth => hne hboth.1]

omit [DecidableEq δ] in
/-- A deletion goes through unless it is refused. -/
theorem lookup_handleFileDelete (hignore : env.shouldIgnore path false = false) :
    (env.handleFileDelete path disk).files.lookup path =
      if env.refused path = false then none else disk.files.lookup path := by
  simp [handleFileDelete, hignore, FileTree.lookup_remove]

/-- An update leaves a file with the hash of its content if the write goes through,
or if the file had that hash. -/
theorem map_lookup_handleFileUpdate {content : β} (hignore : env.shouldIgnore path false = false)
    (haccepts : disk.Accepts env.refused path) :
    ((env.handleFileUpdate path content disk).files.lookup path).map env.toHash =
      some (env.toHash content) := by
  unfold handleFileUpdate
  rw [if_neg (by simp [hignore])]
  by_cases hsame : env.compareHashes disk path content = true
  · rw [if_pos hsame]
    rw [compareHashes, Bool.and_eq_true, decide_eq_true_eq] at hsame
    exact hsame.2
  · rw [if_neg hsame, FileTree.lookup_write, if_pos ⟨rfl, haccepts⟩]
    rfl

/-- An update that cannot be written changes nothing. -/
theorem lookup_handleFileUpdate_of_not_accepts {content : β}
    (haccepts : ¬ disk.Accepts env.refused path) :
    (env.handleFileUpdate path content disk).files.lookup path = disk.files.lookup path := by
  unfold handleFileUpdate
  split
  · rfl
  · split
    · rfl
    · rw [FileTree.lookup_write, if_neg fun hboth => haccepts hboth.2]

theorem dirs_subset_runJob (job : List σ × FileJob β) :
    disk.dirs ⊆ (env.runJob disk job).dirs := by
  obtain ⟨path, action⟩ := job
  cases action with
  | update content =>
      show disk.dirs ⊆ (env.handleFileUpdate path content disk).dirs
      unfold handleFileUpdate
      split
      · exact Finset.Subset.refl _
      · split
        · exact Finset.Subset.refl _
        · exact FileTree.dirs_subset_write
  | delete =>
      show disk.dirs ⊆ (env.handleFileDelete path disk).dirs
      unfold handleFileDelete
      split <;> exact Finset.Subset.refl _

theorem mem_dirs_runJob {job : List σ × FileJob β} {dir : List σ}
    (hdir : dir ∈ (env.runJob disk job).dirs) :
    dir ∈ disk.dirs ∨ ∃ content, job.2 = .update content ∧ dir ∈ ancestors job.1 := by
  obtain ⟨path, action⟩ := job
  cases action with
  | update content =>
      change dir ∈ (env.handleFileUpdate path content disk).dirs at hdir
      unfold handleFileUpdate at hdir
      split at hdir
      · exact .inl hdir
      · split at hdir
        · exact .inl hdir
        · rcases Finset.mem_union.mp (FileTree.dirs_write_subset hdir) with hdir | hancestor
          · exact .inl hdir
          · exact .inr ⟨content, rfl, hancestor⟩
  | delete =>
      change dir ∈ (env.handleFileDelete path disk).dirs at hdir
      unfold handleFileDelete at hdir
      split at hdir <;> exact .inl hdir

theorem dirs_subset_runJobs (order : List (List σ × FileJob β)) (disk : FileTree σ β) :
    disk.dirs ⊆ (env.runJobs order disk).dirs := by
  induction order generalizing disk with
  | nil => exact Finset.Subset.refl _
  | cons job order ih => exact (dirs_subset_runJob job).trans (ih (env.runJob disk job))

/-- New directories lie above files that were to be updated. -/
theorem mem_dirs_runJobs {order : List (List σ × FileJob β)} {disk : FileTree σ β}
    {dir : List σ} (hdir : dir ∈ (env.runJobs order disk).dirs) :
    dir ∈ disk.dirs ∨ ∃ path content, (path, .update content) ∈ order ∧
      dir ∈ ancestors path := by
  induction order generalizing disk with
  | nil => exact .inl hdir
  | cons job order ih =>
      rcases ih hdir with hdir | ⟨path, content, hmem, hancestor⟩
      · rcases mem_dirs_runJob hdir with hdir | ⟨content, hjob, hancestor⟩
        · exact .inl hdir
        · exact .inr ⟨job.1, content, by rw [← hjob]; exact List.mem_cons_self, hancestor⟩
      · exact .inr ⟨path, content, List.mem_cons_of_mem _ hmem, hancestor⟩

/-- Paths that no job is for keep what they hold. -/
theorem lookup_runJobs_of_not_mem {order : List (List σ × FileJob β)}
    (hpath : path ∉ order.map Prod.fst) :
    (env.runJobs order disk).files.lookup path = disk.files.lookup path :=
  FileTree.lookup_foldl_of_not_mem (fun _ _ _ => lookup_runJob_of_ne) hpath disk

/-- Where every path has one job, that job alone decides what its path holds. -/
theorem lookup_runJobs_of_split (env : ProjectEnv σ β δ) (disk : FileTree σ β)
    {before after : List (List σ × FileJob β)} {job : FileJob β}
    (hnodup : ((before ++ (path, job) :: after).map Prod.fst).Nodup) :
    (env.runJobs (before ++ (path, job) :: after) disk).files.lookup path =
        (env.runJob (env.runJobs before disk) (path, job)).files.lookup path ∧
      (env.runJobs before disk).files.lookup path = disk.files.lookup path := by
  have hstep : ∀ tree (entry : List σ × FileJob β) other, other ≠ entry.1 →
      (env.runJob tree entry).files.lookup other = tree.files.lookup other :=
    fun _ _ _ => lookup_runJob_of_ne
  exact FileTree.lookup_foldl_of_split hstep hnodup disk

/-! ## All jobs -/

section Jobs

variable {start : FileTree σ β} {index : List σ → Option δ} {contents : List σ → Option β}
  {jobOrder : List (List σ × FileJob β)}
  (hjobs : ListsEntries (changeJob (env.getAllFiles start) index contents) jobOrder)

include hjobs

/-- A path without a job keeps what it holds. -/
theorem lookup_runJobs_of_none
    (hnone : changeJob (env.getAllFiles start) index contents path = none) :
    (env.runJobs jobOrder disk).files.lookup path = disk.files.lookup path := by
  apply lookup_runJobs_of_not_mem
  intro hmem
  obtain ⟨⟨_, job⟩, hentry, rfl⟩ := List.mem_map.mp hmem
  have hjob := (hjobs.2 _ _).mp hentry
  rw [hnone] at hjob
  nomatch hjob

/-- A deletion goes through unless it is refused. -/
theorem lookup_runJobs_of_delete
    (hjob : changeJob (env.getAllFiles start) index contents path = some .delete) :
    (env.runJobs jobOrder disk).files.lookup path =
      if env.refused path = false then none else disk.files.lookup path := by
  obtain ⟨before, after, heq⟩ := List.append_of_mem ((hjobs.2 path _).mpr hjob)
  have hnodup := hjobs.1
  rw [heq] at hnodup
  obtain ⟨hfinal, hbefore⟩ := lookup_runJobs_of_split env disk hnodup
  obtain ⟨hash, hfound⟩ := Option.ne_none_iff_exists'.mp
    (changeJob_eq_delete_iff.mp hjob).1
  have hvisible := (getAllFiles_eq_some_iff.mp hfound).1
  rw [heq, hfinal, ← hbefore]
  exact lookup_handleFileDelete hvisible.2.1

/-- An update finds its path as it was, with the earlier jobs done. -/
theorem exists_split_of_update (disk : FileTree σ β) {content : β}
    (hjob : changeJob (env.getAllFiles start) index contents path = some (.update content)) :
    ∃ before after, jobOrder = before ++ (path, .update content) :: after ∧
      (env.runJobs before disk).files.lookup path = disk.files.lookup path ∧
      (env.runJobs jobOrder disk).files.lookup path =
        (env.handleFileUpdate path content (env.runJobs before disk)).files.lookup path := by
  obtain ⟨before, after, heq⟩ := List.append_of_mem ((hjobs.2 path _).mpr hjob)
  have hnodup := hjobs.1
  rw [heq] at hnodup
  obtain ⟨hfinal, hbefore⟩ := lookup_runJobs_of_split env disk hnodup
  exact ⟨before, after, heq, hbefore, by rw [heq]; exact hfinal⟩

/-- An update of a file that is there leaves the hash of its content, unless it is
refused. -/
theorem map_lookup_runJobs_of_update {content : β}
    (hjob : changeJob (env.getAllFiles start) index contents path = some (.update content))
    (hignore : env.shouldIgnore path false = false) (hpresent : disk.files.lookup path ≠ none) :
    if env.refused path = false then
      ((env.runJobs jobOrder disk).files.lookup path).map env.toHash = some (env.toHash content)
    else (env.runJobs jobOrder disk).files.lookup path = disk.files.lookup path := by
  obtain ⟨before, after, -, hbefore, hfinal⟩ := exists_split_of_update hjobs disk hjob
  have hmem : path ∈ (env.runJobs before disk).files := by
    obtain ⟨old, hold⟩ := Option.ne_none_iff_exists'.mp hpresent
    exact Finmap.mem_of_lookup_eq_some (hbefore.trans hold)
  rw [hfinal, ← hbefore]
  split
  · rename_i hallowed
    exact map_lookup_handleFileUpdate hignore
      ((FileTree.accepts_iff_of_mem hmem).mpr hallowed)
  · rename_i hrefused
    apply lookup_handleFileUpdate_of_not_accepts
    rw [FileTree.accepts_iff_of_mem hmem]
    exact hrefused

end Jobs

end ProjectEnv

/-! ## What a pending normalization does -/

namespace KeyedEnv

section Normalize

open ProjectEnv

variable {env : KeyedEnv σ ι κ β δ} {disk : FileTree σ β} {path : List σ} {files : FilesAt ι β δ}
  {hash : δ}

theorem lookup_normalizeFile_of_ne {entry : List σ × δ} {other : List σ}
    (hne : other ≠ entry.1) :
    (env.normalizeFile files disk entry).files.lookup other = disk.files.lookup other := by
  unfold normalizeFile
  split
  · rfl
  · split
    · split
      · exact lookup_handleFileUpdate_of_ne hne
      · rfl
    · rfl

theorem lookup_normalizeFile {old content : β} (hold : disk.files.lookup path = some old)
    (hfile : getFileAtRef files (env.localizePath path) = some content)
    (hne : env.toHash content ≠ env.toHash old)
    (hread : env.unreadable path = false) (hignore : env.shouldIgnore path false = false)
    (hallowed : env.refused path = false) :
    (env.normalizeFile files disk (path, env.toHash old)).files.lookup path = some content := by
  have haccepts : disk.Accepts env.refused path :=
    (FileTree.accepts_iff_of_mem (Finmap.mem_of_lookup_eq_some hold)).mpr hallowed
  have hdifferent : env.compareHashes disk path content = false := by
    simp [compareHashes, hold, Ne.symm hne]
  simp [normalizeFile, hread, hold, hfile, handleFileUpdate, hignore, hdifferent,
    FileTree.lookup_write, haccepts]

/-- A normalization that has nothing to change leaves the file alone. -/
theorem lookup_normalizeFile_of_forall
    (hnothing : ∀ old content, disk.files.lookup path = some old → env.toHash old = hash →
      getFileAtRef files (env.localizePath path) = some content →
      env.toHash content ≠ env.toHash old →
      env.unreadable path = false → env.shouldIgnore path false = false →
      env.refused path = false → False) :
    (env.normalizeFile files disk (path, hash)).files.lookup path = disk.files.lookup path := by
  unfold normalizeFile
  split
  · rfl
  · rename_i hread
    split
    · rename_i hhash
      obtain ⟨old, hold, hhash⟩ := Option.map_eq_some_iff.mp hhash
      split
      · rename_i content hfile
        unfold handleFileUpdate
        split
        · rfl
        · rename_i hignore
          split
          · rfl
          · rename_i hdifferent
            rw [FileTree.lookup_write, if_neg]
            intro ⟨_, haccepts⟩
            refine hnothing old content hold hhash hfile ?_ (by simpa using hread)
              (by simpa using hignore) haccepts.2.2
            intro hsame
            apply hdifferent
            simp [compareHashes, hold, hread, hsame]
      · rfl
    · rfl

/-- A normalization only rewrites files that are there. -/
theorem dirs_normalizeFile (entry : List σ × δ) :
    (env.normalizeFile files disk entry).dirs = disk.dirs := by
  unfold normalizeFile
  split
  · rfl
  · split
    · rename_i hhash
      obtain ⟨old, hold, -⟩ := Option.map_eq_some_iff.mp hhash
      split
      · unfold handleFileUpdate
        split
        · rfl
        · split
          · rfl
          · exact FileTree.dirs_write_of_mem (Finmap.mem_of_lookup_eq_some hold)
      · rfl
    · rfl

theorem dirs_foldl_normalizeFile (order : List (List σ × δ)) (disk : FileTree σ β) :
    (order.foldl (env.normalizeFile files) disk).dirs = disk.dirs := by
  induction order generalizing disk with
  | nil => rfl
  | cons entry order ih =>
      rw [List.foldl_cons, ih, dirs_normalizeFile]

end Normalize

end KeyedEnv

namespace Project

section Normalized

variable {env : KeyedEnv σ ι κ β δ} {filesAt : ρ → Option (FilesAt ι β δ)}
  {project : Project σ β δ ρ} {normOrder : List (List σ × δ)} {path : List σ}

theorem dirs_resolvePendingNormalizedFiles :
    (project.resolvePendingNormalizedFiles env filesAt normOrder).disk.dirs =
      project.disk.dirs := by
  unfold resolvePendingNormalizedFiles
  split
  · rfl
  · split
    · rfl
    · exact KeyedEnv.dirs_foldl_normalizeFile normOrder project.disk

/-- What a file holds once the pending normalizations are resolved. -/
theorem lookup_resolvePendingNormalizedFiles (env : KeyedEnv σ ι κ β δ)
    (filesAt : ρ → Option (FilesAt ι β δ))
    (hnorm : ListsEntries project.pendingNormalizedFiles.lookup normOrder) (path : List σ) :
    (∃ content, project.NormalizesTo env filesAt path content ∧
      (project.resolvePendingNormalizedFiles env filesAt normOrder).disk.files.lookup path =
        some content) ∨
    (∀ content, ¬ project.NormalizesTo env filesAt path content) ∧
      (project.resolvePendingNormalizedFiles env filesAt normOrder).disk.files.lookup path =
        project.disk.files.lookup path := by
  unfold resolvePendingNormalizedFiles
  cases hfiles : project.checkedOutRef.bind filesAt with
  | none =>
      refine .inr ⟨fun content ⟨files, _, hfound, _⟩ => ?_, rfl⟩
      rw [hfiles] at hfound
      nomatch hfound
  | some files =>
      by_cases hpending : ∃ hash, project.pendingNormalizedFiles.lookup path = some hash
      swap
      · have hkeys : path ∉ normOrder.map Prod.fst := by
          intro hmem
          obtain ⟨⟨_, hash⟩, hentry, rfl⟩ := List.mem_map.mp hmem
          exact hpending ⟨hash, (hnorm.2 _ _).mp hentry⟩
        refine .inr ⟨fun content ⟨_, _, _, _, hlookup, _⟩ => hpending ⟨_, hlookup⟩, ?_⟩
        simp only
        split
        · rfl
        · exact FileTree.lookup_foldl_of_not_mem
            (fun _ _ _ => KeyedEnv.lookup_normalizeFile_of_ne) hkeys _
      · obtain ⟨hash, hpending⟩ := hpending
        obtain ⟨before, after, heq⟩ := List.append_of_mem ((hnorm.2 path hash).mpr hpending)
        have hnodup := hnorm.1
        rw [heq] at hnodup
        have hstep : ∀ tree (entry : List σ × δ) other, other ≠ entry.1 →
            (env.normalizeFile files tree entry).files.lookup other = tree.files.lookup other :=
          fun _ _ _ => KeyedEnv.lookup_normalizeFile_of_ne
        obtain ⟨hfinal, hmiddle⟩ := FileTree.lookup_foldl_of_split hstep hnodup project.disk
        have hne : normOrder ≠ [] := by simp [heq]
        simp only [if_neg hne]
        rw [heq, hfinal]
        by_cases hrewrites : ∃ content, project.NormalizesTo env filesAt path content
        · obtain ⟨content, hnormalizes⟩ := hrewrites
          refine .inl ⟨content, hnormalizes, ?_⟩
          obtain ⟨found, old, hfound, hold, hlookup, hfile, hdifferent, hread, hignore, hallowed⟩ :=
            hnormalizes
          cases hfiles.symm.trans hfound
          cases hpending.symm.trans hlookup
          exact KeyedEnv.lookup_normalizeFile (hmiddle.trans hold) hfile hdifferent hread
            hignore hallowed
        · refine .inr ⟨fun content hnormalizes => hrewrites ⟨content, hnormalizes⟩, ?_⟩
          rw [← hmiddle]
          apply KeyedEnv.lookup_normalizeFile_of_forall
          intro old content hold hhash hfile hdifferent hread hignore hallowed
          subst hhash
          exact hrewrites ⟨content, files, old, hfiles, hmiddle.symm.trans hold, hpending, hfile,
            hdifferent, hread, hignore, hallowed⟩

end Normalized

/-! ## Exactness -/

section Exact

variable {env : KeyedEnv σ ι κ β δ} {filesAt : ρ → Option (FilesAt ι β δ)}
  {project : Project σ β δ ρ} {index : List σ → Option δ} {contents : List σ → Option β}
  {jobOrder : List (List σ × FileJob β)} {path : List σ}
  (hjobs : ListsEntries (changeJob (env.getAllFiles project.disk) index contents) jobOrder)
  {resolved : FileTree σ β} (hdirs : resolved.dirs = project.disk.dirs)
  (hnormalized : ∀ path,
    (∃ content, project.NormalizesTo env filesAt path content ∧
      resolved.files.lookup path = some content) ∨
    (∀ content, ¬ project.NormalizesTo env filesAt path content) ∧
      resolved.files.lookup path = project.disk.files.lookup path)

include hjobs hnormalized

omit hjobs in
omit [DecidableEq δ] in
/-- Normalizing makes no files and removes none. -/
theorem lookup_resolved_eq_none_iff :
    resolved.files.lookup path = none ↔ project.disk.files.lookup path = none := by
  rcases hnormalized path with ⟨content, ⟨_, old, _, hold, _⟩, hlookup⟩ | ⟨-, hlookup⟩
  · rw [hlookup, hold]
    exact iff_of_false nofun nofun
  · rw [hlookup]

include hdirs

section Matches

variable (hmatch : env.getAllFiles (env.runJobs jobOrder resolved) = index)

include hmatch

omit hjobs hdirs hnormalized [DecidableEq ι] in
theorem exists_of_eq {hash : δ} (hpath : index path = some hash) :
    env.Visible path ∧ ∃ content,
      (env.runJobs jobOrder resolved).files.lookup path = some content ∧
        env.toHash content = hash := by
  rw [← hmatch] at hpath
  exact ProjectEnv.getAllFiles_eq_some_iff.mp hpath

omit hdirs in
theorem removed_of_eq (hfound : env.getAllFiles project.disk path ≠ none)
    (hgone : index path = none) : env.refused path = false := by
  by_contra hrefused
  have hjob : changeJob (env.getAllFiles project.disk) index contents path = some .delete :=
    changeJob_eq_delete_iff.mpr ⟨hfound, hgone⟩
  have hfinal : (env.runJobs jobOrder resolved).files.lookup path = resolved.files.lookup path := by
    rw [ProjectEnv.lookup_runJobs_of_delete hjobs hjob, if_neg hrefused]
  obtain ⟨hash, hfound⟩ := Option.ne_none_iff_exists'.mp hfound
  obtain ⟨hvisible, content, hcontent, -⟩ := ProjectEnv.getAllFiles_eq_some_iff.mp hfound
  rw [← hmatch, ProjectEnv.getAllFiles_of_visible hvisible, hfinal, Option.map_eq_none_iff,
    lookup_resolved_eq_none_iff hnormalized, hcontent] at hgone
  nomatch hgone

omit hjobs hnormalized [DecidableEq ι] in
theorem apart_of_eq (hpath : index path ≠ none) :
    path ∉ project.disk.dirs ∧
      ∀ ancestor ∈ ancestors path, index ancestor = none := by
  obtain ⟨hash, hpath⟩ := Option.ne_none_iff_exists'.mp hpath
  obtain ⟨-, content, hcontent, -⟩ := exists_of_eq hmatch hpath
  have hmem := Finmap.mem_of_lookup_eq_some hcontent
  constructor
  · intro hdir
    rw [← hdirs] at hdir
    exact (env.runJobs jobOrder resolved).disjoint path hmem
      (ProjectEnv.dirs_subset_runJobs jobOrder resolved hdir)
  · intro ancestor hancestor
    have hopen := FileTree.open_of_mem (.inr hmem) ancestor hancestor
    cases hfound : index ancestor with
    | none => rfl
    | some other =>
        obtain ⟨-, file, hfile, -⟩ := exists_of_eq hmatch hfound
        exact absurd (Finmap.mem_of_lookup_eq_some hfile) hopen

omit hdirs in
theorem kept_of_eq {old content : β} (hold : project.disk.files.lookup path = some old)
    (hpath : index path = some (env.toHash old)) :
    ¬ project.NormalizesTo env filesAt path content := by
  intro hnormalizes
  obtain ⟨hvisible, final, hfinal, hhash⟩ := exists_of_eq hmatch hpath
  have hsame : env.getAllFiles project.disk path = index path := by
    rw [hpath]
    exact ProjectEnv.getAllFiles_eq_some_iff.mpr ⟨hvisible, old, hold, rfl⟩
  rw [ProjectEnv.lookup_runJobs_of_none hjobs (changeJob_eq_none_of_eq hsame)] at hfinal
  rcases hnormalized path with ⟨written, hwritten, hlookup⟩ | ⟨hnone, -⟩
  · cases hlookup.symm.trans hfinal
    obtain ⟨_, found, _, hfound, _, _, hdifferent, _⟩ := hwritten
    cases hold.symm.trans hfound
    exact hdifferent hhash
  · exact hnone content hnormalizes

omit hdirs in
theorem rewritten_of_eq {old : β} {hash : δ}
    (hold : project.disk.files.lookup path = some old)
    (hpath : index path = some hash) (hne : env.toHash old ≠ hash) :
    (∃ content, contents path = some content ∧ env.toHash content = hash ∧
      env.refused path = false) ∨
    contents path = none ∧
      ∃ content, project.NormalizesTo env filesAt path content ∧ env.toHash content = hash := by
  obtain ⟨hvisible, final, hfinal, hhash⟩ := exists_of_eq hmatch hpath
  have hscan : env.getAllFiles project.disk path = some (env.toHash old) :=
    ProjectEnv.getAllFiles_eq_some_iff.mpr ⟨hvisible, old, hold, rfl⟩
  cases hfile : contents path with
  | none =>
      have hnone : changeJob (env.getAllFiles project.disk) index contents path = none :=
        changeJob_eq_none_of_contents hfile (hpath ▸ nofun)
      rw [ProjectEnv.lookup_runJobs_of_none hjobs hnone] at hfinal
      rcases hnormalized path with ⟨content, hnormalizes, hlookup⟩ | ⟨_, hlookup⟩
      · rw [hlookup, Option.some.injEq] at hfinal
        exact .inr ⟨rfl, content, hnormalizes, hfinal ▸ hhash⟩
      · rw [hlookup, hold] at hfinal
        cases hfinal
        exact absurd hhash hne
  | some content =>
      have hjob : changeJob (env.getAllFiles project.disk) index contents path =
          some (.update content) := changeJob_eq_update_iff.mpr
        ⟨hash, hpath, by rw [hscan]; exact fun heq => hne (Option.some.inj heq), hfile⟩
      have hpresent : resolved.files.lookup path ≠ none := by
        rw [Ne, lookup_resolved_eq_none_iff hnormalized, hold]
        exact nofun
      have hupdate := ProjectEnv.map_lookup_runJobs_of_update hjobs hjob hvisible.2.1 hpresent
      by_cases hallowed : env.refused path = false
      · rw [if_pos hallowed, hfinal, Option.map_some, hhash] at hupdate
        exact .inl ⟨content, rfl, (Option.some.inj hupdate).symm, hallowed⟩
      · rw [if_neg hallowed, hfinal] at hupdate
        rcases hnormalized path with ⟨_, ⟨_, _, _, _, _, _, _, _, _, hfree⟩, _⟩ | ⟨_, hlookup⟩
        · exact absurd hfree hallowed
        · rw [hlookup, hold] at hupdate
          cases hupdate
          exact absurd hhash hne

theorem created_of_eq {hash : δ} (hold : project.disk.files.lookup path = none)
    (hpath : index path = some hash) :
    ∃ content, contents path = some content ∧ env.toHash content = hash ∧
      env.refused path = false ∧
      ∀ ancestor ∈ ancestors path, ancestor ∈ project.disk.files →
        env.refused ancestor = false ∧
          Precedes jobOrder (ancestor, .delete) (path, .update content) := by
  obtain ⟨hvisible, final, hfinal, hhash⟩ := exists_of_eq hmatch hpath
  have hmissing := (lookup_resolved_eq_none_iff hnormalized).mpr hold
  cases hfile : contents path with
  | none =>
      have hnone : changeJob (env.getAllFiles project.disk) index contents path = none :=
        changeJob_eq_none_of_contents hfile (hpath ▸ nofun)
      rw [ProjectEnv.lookup_runJobs_of_none hjobs hnone, hmissing] at hfinal
      nomatch hfinal
  | some content =>
      have hscan : env.getAllFiles project.disk path = none := by
        rw [ProjectEnv.getAllFiles_of_visible hvisible, hold, Option.map_none]
      have hjob : changeJob (env.getAllFiles project.disk) index contents path =
          some (.update content) := changeJob_eq_update_iff.mpr
        ⟨hash, hpath, by rw [hscan]; exact nofun, hfile⟩
      have haccepts : ∀ before after, jobOrder = before ++ (path, .update content) :: after →
          (env.runJobs before resolved).Accepts env.refused path := by
        intro before after heq
        have hnodup := hjobs.1
        rw [heq] at hnodup
        obtain ⟨hlast, hbefore⟩ :=
          ProjectEnv.lookup_runJobs_of_split env.toProjectEnv resolved hnodup
        by_contra hnot
        rw [heq, hlast] at hfinal
        have hkeeps : (env.handleFileUpdate path content
            (env.runJobs before resolved)).files.lookup path = none := by
          rw [ProjectEnv.lookup_handleFileUpdate_of_not_accepts hnot, hbefore, hmissing]
        exact nomatch hkeeps.symm.trans hfinal
      obtain ⟨before, after, heq, -, hlast⟩ := ProjectEnv.exists_split_of_update hjobs resolved hjob
      have hupdate : ((env.handleFileUpdate path content
          (env.runJobs before resolved)).files.lookup path).map env.toHash =
            some (env.toHash content) :=
        ProjectEnv.map_lookup_handleFileUpdate hvisible.2.1 (haccepts before after heq)
      rw [← hlast, hfinal, Option.map_some, hhash] at hupdate
      refine ⟨content, rfl, (Option.some.inj hupdate).symm, (haccepts before after heq).2.2, ?_⟩
      intro ancestor hancestor hblocks
      -- the file in the way is gone when the update runs, so its deletion came before
      have hdelete : ∀ before after, jobOrder = before ++ (path, .update content) :: after →
          (ancestor, .delete) ∈ before := by
        intro before after heq
        have hkey : ancestor ∈ before.map Prod.fst := by
          by_contra hkey
          apply (haccepts before after heq).1 ancestor hancestor
          rw [← Finmap.lookup_isSome, ProjectEnv.lookup_runJobs_of_not_mem hkey,
            Option.isSome_iff_ne_none, Ne, lookup_resolved_eq_none_iff hnormalized,
            ← Ne, ← Option.isSome_iff_ne_none, Finmap.lookup_isSome]
          exact hblocks
        obtain ⟨⟨_, job⟩, hentry, rfl⟩ := List.mem_map.mp hkey
        cases job with
        | delete => exact hentry
        | update other =>
            have hplanned := (hjobs.2 _ _).mp (heq ▸ List.mem_append_left _ hentry)
            obtain ⟨_, hother, -⟩ := changeJob_eq_update_iff.mp hplanned
            have hgone := (apart_of_eq hdirs hmatch (hpath ▸ nofun)).2 _ hancestor
            exact nomatch hgone.symm.trans hother
      refine ⟨?_, hdelete⟩
      have hplanned := (hjobs.2 ancestor .delete).mp
        (heq ▸ List.mem_append_left _ (hdelete before after heq))
      obtain ⟨hfound, hgone⟩ := changeJob_eq_delete_iff.mp hplanned
      exact removed_of_eq hjobs hnormalized hmatch hfound hgone

/-- If the disk matches the goal, every job took effect. -/
theorem jobsLand_of_eq : project.JobsLand env filesAt index contents jobOrder where
  removed := fun _ => removed_of_eq hjobs hnormalized hmatch
  visible := by
    intro path hpath
    obtain ⟨hash, hpath⟩ := Option.ne_none_iff_exists'.mp hpath
    exact (exists_of_eq hmatch hpath).1
  apart := fun _ => apart_of_eq hdirs hmatch
  kept := fun _ _ hold hpath _ => kept_of_eq hjobs hnormalized hmatch hold hpath
  rewritten := fun _ _ _ => rewritten_of_eq hjobs hnormalized hmatch
  created := fun _ _ => created_of_eq hjobs hdirs hnormalized hmatch

end Matches

/-- If nothing keeps the jobs from taking effect, an update of a missing file goes
through. -/
theorem accepts_of_jobsLand (hlands : project.JobsLand env filesAt index contents jobOrder)
    {content : β} {hash : δ} (hpath : index path = some hash)
    (hallowed : env.refused path = false)
    {before after : List (List σ × FileJob β)}
    (heq : jobOrder = before ++ (path, .update content) :: after)
    (hblocked : ∀ ancestor ∈ ancestors path, ancestor ∈ project.disk.files →
      (ancestor, .delete) ∈ before) :
    (env.runJobs before resolved).Accepts env.refused path := by
  obtain ⟨hnotDir, hapart⟩ := hlands.apart path (hpath ▸ nofun)
  have hplanned : ∀ {job}, job ∈ before →
      changeJob (env.getAllFiles project.disk) index contents job.1 = some job.2 :=
    fun hmem => (hjobs.2 _ _).mp (heq ▸ List.mem_append_left _ hmem)
  refine ⟨fun ancestor hancestor hfile => ?_, fun hdir => ?_, hallowed⟩
  · have hgone := hapart ancestor hancestor
    by_cases hkey : ancestor ∈ before.map Prod.fst
    · obtain ⟨⟨blocking, job⟩, hentry, rfl⟩ := List.mem_map.mp hkey
      have hjob := hplanned hentry
      cases job with
      | update other =>
          obtain ⟨_, hother, -⟩ := changeJob_eq_update_iff.mp hjob
          exact nomatch hgone.symm.trans hother
      | delete =>
          obtain ⟨hfound, -⟩ := changeJob_eq_delete_iff.mp hjob
          obtain ⟨_, hscan⟩ := Option.ne_none_iff_exists'.mp hfound
          have hvisible := (ProjectEnv.getAllFiles_eq_some_iff.mp hscan).1
          obtain ⟨first, rest, hsplit⟩ := List.append_of_mem hentry
          have hnodup : (before.map Prod.fst).Nodup := by
            have hall := hjobs.1
            rw [heq, List.map_append, List.nodup_append] at hall
            exact hall.1
          rw [hsplit] at hnodup hfile
          have hlast := (ProjectEnv.lookup_runJobs_of_split env.toProjectEnv resolved hnodup).1
          have hremoved : (env.handleFileDelete blocking
              (env.runJobs first resolved)).files.lookup blocking = none := by
            rw [ProjectEnv.lookup_handleFileDelete hvisible.2.1,
              if_pos (hlands.removed _ hfound hgone)]
          rw [← Finmap.lookup_isSome, hlast] at hfile
          exact absurd hfile (by rw [ProjectEnv.runJob, hremoved]; exact nofun)
    · rw [← Finmap.lookup_isSome, ProjectEnv.lookup_runJobs_of_not_mem hkey,
        Option.isSome_iff_ne_none, Ne, lookup_resolved_eq_none_iff hnormalized,
        ← Ne, ← Option.isSome_iff_ne_none, Finmap.lookup_isSome] at hfile
      exact hkey (List.mem_map.mpr ⟨_, hblocked ancestor hancestor hfile, rfl⟩)
  · rcases ProjectEnv.mem_dirs_runJobs hdir with hdir | ⟨below, other, hentry, hancestor⟩
    · exact hnotDir (hdirs ▸ hdir)
    · obtain ⟨_, hother, -⟩ := changeJob_eq_update_iff.mp (hplanned hentry)
      have hgone := (hlands.apart below (hother ▸ nofun)).2 path hancestor
      exact nomatch hgone.symm.trans hpath

/-- If nothing keeps the jobs from taking effect, the disk matches the goal. -/
theorem eq_of_jobsLand (hlands : project.JobsLand env filesAt index contents jobOrder) :
    env.getAllFiles (env.runJobs jobOrder resolved) = index := by
  funext path
  cases hpath : index path with
  | none =>
      by_cases hvisible : env.Visible path
      swap
      · exact if_neg hvisible
      rw [ProjectEnv.getAllFiles_of_visible hvisible, Option.map_eq_none_iff]
      cases hscan : env.getAllFiles project.disk path with
      | none =>
          have hsame : changeJob (env.getAllFiles project.disk) index contents path = none :=
            changeJob_eq_none_of_eq (hscan.trans hpath.symm)
          rw [ProjectEnv.lookup_runJobs_of_none hjobs hsame,
            lookup_resolved_eq_none_iff hnormalized]
          rwa [ProjectEnv.getAllFiles_of_visible hvisible, Option.map_eq_none_iff] at hscan
      | some hash =>
          have hfound : env.getAllFiles project.disk path ≠ none := hscan ▸ nofun
          have hjob : changeJob (env.getAllFiles project.disk) index contents path = some .delete :=
            changeJob_eq_delete_iff.mpr ⟨hfound, hpath⟩
          rw [ProjectEnv.lookup_runJobs_of_delete hjobs hjob,
            if_pos (hlands.removed path hfound hpath)]
  | some hash =>
      have hvisible := hlands.visible path (hpath ▸ nofun)
      rw [ProjectEnv.getAllFiles_of_visible hvisible]
      cases hold : project.disk.files.lookup path with
      | none =>
          obtain ⟨content, hfile, hhash, hallowed, hblocked⟩ := hlands.created path hash hold hpath
          have hscan : env.getAllFiles project.disk path = none := by
            rw [ProjectEnv.getAllFiles_of_visible hvisible, hold, Option.map_none]
          have hjob : changeJob (env.getAllFiles project.disk) index contents path =
              some (.update content) := changeJob_eq_update_iff.mpr
            ⟨hash, hpath, by rw [hscan]; exact nofun, hfile⟩
          obtain ⟨before, after, heq, -, hlast⟩ :=
            ProjectEnv.exists_split_of_update hjobs resolved hjob
          have haccepts := accepts_of_jobsLand hjobs hdirs hnormalized hlands hpath hallowed
            heq fun ancestor hancestor hfileAncestor =>
              (hblocked ancestor hancestor hfileAncestor).2 before after heq
          rw [hlast, ProjectEnv.map_lookup_handleFileUpdate hvisible.2.1 haccepts, hhash]
      | some old =>
          have hscan : env.getAllFiles project.disk path = some (env.toHash old) :=
            ProjectEnv.getAllFiles_eq_some_iff.mpr ⟨hvisible, old, hold, rfl⟩
          by_cases hsame : env.toHash old = hash
          · subst hsame
            rw [ProjectEnv.lookup_runJobs_of_none hjobs
              (changeJob_eq_none_of_eq (hscan.trans hpath.symm))]
            rcases hnormalized path with ⟨content, hnormalizes, -⟩ | ⟨-, hlookup⟩
            · exact absurd hnormalizes (hlands.kept path old hold hpath content)
            · rw [hlookup, hold, Option.map_some]
          · rcases hlands.rewritten path old hash hold hpath hsame with
              ⟨content, hfile, hhash, hallowed⟩ | ⟨hfile, content, hnormalizes, hhash⟩
            · have hjob : changeJob (env.getAllFiles project.disk) index contents path =
                  some (.update content) := changeJob_eq_update_iff.mpr
                ⟨hash, hpath, by rw [hscan]; exact fun heq => hsame (Option.some.inj heq), hfile⟩
              have hpresent : resolved.files.lookup path ≠ none := by
                rw [Ne, lookup_resolved_eq_none_iff hnormalized, hold]
                exact nofun
              have hupdate :=
                ProjectEnv.map_lookup_runJobs_of_update hjobs hjob hvisible.2.1 hpresent
              rw [if_pos hallowed, hhash] at hupdate
              exact hupdate
            · rw [ProjectEnv.lookup_runJobs_of_none hjobs
                (changeJob_eq_none_of_contents hfile (hpath ▸ nofun))]
              rcases hnormalized path with ⟨other, hother, hlookup⟩ | ⟨hnone, -⟩
              · obtain ⟨_, _, hfiles, _, _, hfirst, _⟩ := hnormalizes
                obtain ⟨_, _, hfound, _, _, hsecond, _⟩ := hother
                cases hfiles.symm.trans hfound
                cases hfirst.symm.trans hsecond
                rw [hlookup, Option.map_some, hhash]
              · exact absurd hnormalizes (hnone content)

end Exact

end Project

/-! ## Keys that lead back -/

variable [DecidableEq κ]

section FileJobs

variable {order : List (DiskPath σ κ × FileJob β)} {path : List σ} {job : FileJob β}

omit [DecidableEq σ] [DecidableEq κ] in
theorem mem_fileJobs : (path, job) ∈ fileJobs order ↔ (.file path, job) ∈ order := by
  rw [fileJobs, List.mem_filterMap]
  constructor
  · rintro ⟨⟨place, found⟩, hmem, hfound⟩
    cases place with
    | file names =>
        cases hfound
        exact hmem
    | other path => nomatch hfound
  · intro hmem
    exact ⟨_, hmem, rfl⟩

omit [DecidableEq σ] [DecidableEq κ] in
theorem nodup_fileJobs (hnodup : (order.map Prod.fst).Nodup) :
    ((fileJobs order).map Prod.fst).Nodup := by
  induction order with
  | nil => exact List.nodup_nil
  | cons entry order ih =>
      obtain ⟨place, action⟩ := entry
      obtain ⟨hnew, hrest⟩ := List.nodup_cons.mp hnodup
      cases place with
      | other path => exact ih hrest
      | file names =>
          refine List.nodup_cons.mpr ⟨fun hmem => hnew ?_, ih hrest⟩
          obtain ⟨⟨_, found⟩, hfound, rfl⟩ := List.mem_map.mp hmem
          exact List.mem_map.mpr ⟨_, mem_fileJobs.mp hfound, rfl⟩

end FileJobs

omit [DecidableEq σ] [DecidableEq ι] [DecidableEq κ] in
/-- Paths whose keys lead back to them have different keys. -/
theorem PathKeys.ComesBack.inj {keys : PathKeys σ ι κ} {first second : List σ}
    (hfirst : keys.ComesBack first) (hsecond : keys.ComesBack second)
    (hkey : keys.localizePath first = keys.localizePath second) : first = second := by
  have hpaths : (DiskPath.file first : DiskPath σ κ) = .file second := by
    rw [← hfirst, hkey, hsecond]
  exact DiskPath.file.inj hpaths

omit [DecidableEq σ] [DecidableEq ι] [DecidableEq κ] in
/-- Keys that lead to files and back lead to different files. -/
theorem PathKeys.Returns.inj {keys : PathKeys σ ι κ} {first second : ι}
    (hfirst : keys.Returns first) (hsecond : keys.Returns second)
    (hplace : keys.globalizePath first = keys.globalizePath second) : first = second := by
  obtain ⟨firstPath, hfirstPath, rfl⟩ := hfirst
  obtain ⟨secondPath, hsecondPath, rfl⟩ := hsecond
  rw [DiskPath.file.inj (hfirstPath.symm.trans (hplace.trans hsecondPath))]

namespace KeyedEnv

section Keyed

variable {env : KeyedEnv σ ι κ β δ} {disk : FileTree σ β} {goal : FilesAt ι β δ}
  {scanOrder : List (List σ × δ)} {changeOrder : List (ι × FileJob β)}
  {jobOrder : List (DiskPath σ κ × FileJob β)} {path : List σ} {key : ι}

omit [DecidableEq ι] [DecidableEq κ] in
/-- Jobs at files of the project are run like jobs under keys that are paths. -/
theorem runPathJobs_of_files (hfiles : ∀ job ∈ jobOrder, ∃ path, job.1 = .file path)
    (disk : FileTree σ β) :
    env.runPathJobs jobOrder disk = env.runJobs (fileJobs jobOrder) disk := by
  induction jobOrder generalizing disk with
  | nil => rfl
  | cons job order ih =>
      obtain ⟨place, action⟩ := job
      obtain ⟨path, rfl⟩ := hfiles (place, action) List.mem_cons_self
      exact ih (fun job hjob => hfiles job (List.mem_cons_of_mem _ hjob)) _

omit [DecidableEq δ] in
/-- Where every key of the index leads to a file and back, a match is one of indexes. -/
theorem matches_iff (hreturns : ∀ key, env.getHashIndex goal key ≠ none → env.Returns key) :
    env.Matches disk goal ↔ env.getAllFiles disk = env.hashAt goal := by
  constructor
  · intro hmatch
    funext path
    ext hash
    constructor
    · intro hfile
      obtain ⟨hpath, hindex⟩ := hmatch.files path hash hfile
      rw [hashAt, if_pos hpath, hindex]
    · intro hindex
      unfold hashAt at hindex
      split at hindex
      · rename_i hpath
        obtain ⟨found, hfound, -, hfile⟩ := hmatch.keys _ hash hindex
        obtain rfl : path = found := DiskPath.file.inj (hpath.symm.trans hfound)
        exact hfile
      · nomatch hindex
  · intro hsame
    constructor
    case files =>
      intro path hash hfile
      rw [hsame, hashAt] at hfile
      split at hfile
      · rename_i hpath
        exact ⟨hpath, hfile⟩
      · nomatch hfile
    case keys =>
      intro key hash hindex
      obtain ⟨path, hpath, rfl⟩ := hreturns key (by rw [hindex]; exact nofun)
      refine ⟨path, hpath, rfl, ?_⟩
      rw [hsame, hashAt, if_pos (show env.ComesBack path from hpath), hindex]

variable (hscan : ListsEntries (env.getAllFiles disk) scanOrder)

include hscan

omit [DecidableEq δ] [DecidableEq κ] in
theorem exists_of_lookup_currentFiles {hash : δ}
    (hcurrent : (env.currentFiles scanOrder).lookup key = some hash) :
    ∃ path, env.localizePath path = key ∧ env.getAllFiles disk path = some hash := by
  obtain ⟨⟨path, found⟩, hentry, heq⟩ :=
    List.mem_map.mp (HashMap.mem_of_lookup_collect hcurrent)
  cases heq
  exact ⟨path, rfl, (hscan.2 _ _).mp hentry⟩

section Back

variable (hback : ∀ path, env.getAllFiles disk path ≠ none → env.ComesBack path)

include hback

omit [DecidableEq δ] [DecidableEq κ] in
/-- No two files that come back fall together under one key. -/
theorem lookup_currentFiles (hpath : env.ComesBack path) :
    (env.currentFiles scanOrder).lookup (env.localizePath path) = env.getAllFiles disk path := by
  have hscanned : ∀ entry ∈ scanOrder, env.ComesBack entry.1 := by
    intro entry hentry
    apply hback
    rw [(hscan.2 entry.1 entry.2).mp hentry]
    exact nofun
  ext hash
  rw [currentFiles, HashMap.lookup_collect_map hscan.1 fun first hfirst second hsecond =>
    (hscanned first hfirst).inj (hscanned second hsecond), ← hscan.2]
  constructor
  · rintro ⟨found, hentry, hkey⟩
    obtain rfl : found = path := (hscanned _ hentry).inj hpath hkey
    exact hentry
  · intro hentry
    exact ⟨path, hentry, rfl⟩

/-- A change under the key of a path is one of the file there. -/
theorem checkoutRef_localizePath (hpath : env.ComesBack path) :
    env.checkoutRef scanOrder goal (env.localizePath path) =
      changeJob (env.getAllFiles disk) (env.hashAt goal) (env.contentAt goal) path := by
  rw [checkoutRef, changeJob, changeJob, getFileChanges, getFileChanges,
    lookup_currentFiles hscan hback hpath, hashAt, contentAt, if_pos hpath, if_pos hpath]

omit hscan in
theorem changeJob_of_not_comesBack (hpath : ¬ env.ComesBack path) :
    changeJob (env.getAllFiles disk) (env.hashAt goal) (env.contentAt goal) path = none := by
  have hfile : env.getAllFiles disk path = none := by
    by_contra hfile
    exact hpath (hback path hfile)
  exact changeJob_eq_none_of_eq (hfile.trans (if_neg hpath).symm)

variable (hreturns : ∀ key, env.getHashIndex goal key ≠ none → env.Returns key)
  (hchanges : ListsEntries (env.checkoutRef scanOrder goal) changeOrder)

include hreturns hchanges

omit [DecidableEq κ] in
/-- Every change is one of a file whose key leads back to it. -/
theorem returns_of_mem_changeOrder {job : FileJob β} (hentry : (key, job) ∈ changeOrder) :
    env.Returns key := by
  have hjob : env.checkoutRef scanOrder goal key ≠ none := by
    rw [(hchanges.2 _ _).mp hentry]
    exact nofun
  rcases ne_none_of_getFileChanges (getFileChanges_ne_none hjob) with hcurrent | hindex
  · obtain ⟨hash, hcurrent⟩ := Option.ne_none_iff_exists'.mp hcurrent
    obtain ⟨path, hkey, hfile⟩ := exists_of_lookup_currentFiles hscan hcurrent
    rw [← hkey]
    exact ⟨path, hback path (by rw [hfile]; exact nofun), rfl⟩
  · exact hreturns key hindex

/-- What is joined are the changes of the files. -/
theorem lookup_joined_eq_some_iff {place : DiskPath σ κ} {job : FileJob β} :
    (env.joined changeOrder).lookup place = some job ↔ ∃ path, place = .file path ∧
      changeJob (env.getAllFiles disk) (env.hashAt goal) (env.contentAt goal) path = some job := by
  have hleads : ∀ entry ∈ changeOrder, env.Returns entry.1 :=
    fun _ hentry => returns_of_mem_changeOrder hscan hback hreturns hchanges hentry
  have hapart : ∀ first ∈ changeOrder, ∀ second ∈ changeOrder,
      env.globalizePath first.1 = env.globalizePath second.1 → first.1 = second.1 :=
    fun first hfirst second hsecond =>
      PathKeys.Returns.inj (hleads first hfirst) (hleads second hsecond)
  rw [joined, HashMap.lookup_collect_map hchanges.1 hapart]
  constructor
  · rintro ⟨key, hentry, hplace⟩
    obtain ⟨path, hpath, rfl⟩ := hleads _ hentry
    refine ⟨path, hplace.symm.trans hpath, ?_⟩
    rw [← checkoutRef_localizePath hscan hback hpath]
    exact (hchanges.2 _ _).mp hentry
  · rintro ⟨path, rfl, hjob⟩
    have hpath : env.ComesBack path := by
      by_contra hpath
      rw [changeJob_of_not_comesBack hback hpath] at hjob
      nomatch hjob
    refine ⟨env.localizePath path, (hchanges.2 _ _).mpr ?_, hpath⟩
    rw [checkoutRef_localizePath hscan hback hpath]
    exact hjob

/-- The joined futures are the jobs at files of the project. -/
theorem listsEntries_fileJobs (hjobs : ListsEntries (env.joined changeOrder).lookup jobOrder) :
    ListsEntries (changeJob (env.getAllFiles disk) (env.hashAt goal) (env.contentAt goal))
      (fileJobs jobOrder) ∧ ∀ job ∈ jobOrder, ∃ path, job.1 = .file path := by
  have hlookup : ∀ place job, (env.joined changeOrder).lookup place = some job ↔
      ∃ path, place = .file path ∧ changeJob (env.getAllFiles disk) (env.hashAt goal)
        (env.contentAt goal) path = some job :=
    fun _ _ => lookup_joined_eq_some_iff hscan hback hreturns hchanges
  refine ⟨⟨nodup_fileJobs hjobs.1, fun path job => ?_⟩, fun job hjob => ?_⟩
  · rw [mem_fileJobs, hjobs.2, hlookup]
    constructor
    · rintro ⟨found, heq, hjob⟩
      rwa [DiskPath.file.inj heq]
    · intro hjob
      exact ⟨path, rfl, hjob⟩
  · obtain ⟨path, hplace, -⟩ := (hlookup job.1 job.2).mp ((hjobs.2 _ _).mp hjob)
    exact ⟨path, hplace⟩

end Back

/-! ## Files whose keys lead elsewhere -/

/-- What is deleted is where a path was localized to. -/
theorem exists_of_delete {place : DiskPath σ κ}
    (hchanges : ListsEntries (env.checkoutRef scanOrder goal) changeOrder)
    (hjobs : ListsEntries (env.joined changeOrder).lookup jobOrder)
    (hdelete : (place, .delete) ∈ jobOrder) :
    ∃ source, env.globalizePath (env.localizePath source) = place := by
  obtain ⟨⟨key, job⟩, hentry, heq⟩ :=
    List.mem_map.mp (HashMap.mem_of_lookup_collect ((hjobs.2 _ _).mp hdelete))
  obtain ⟨hplace, hjob⟩ := Sigma.mk.inj_iff.mp heq
  obtain rfl := eq_of_heq hjob
  obtain ⟨hcurrent, -⟩ := changeJob_eq_delete_iff.mp ((hchanges.2 _ _).mp hentry)
  obtain ⟨hash, hcurrent⟩ := Option.ne_none_iff_exists'.mp hcurrent
  obtain ⟨source, rfl, -⟩ := exists_of_lookup_currentFiles hscan hcurrent
  exact ⟨source, hplace⟩

omit hscan

omit [DecidableEq ι] [DecidableEq κ] in
theorem mem_handleFileUpdate {other : List σ} {content : β} (hmem : path ∈ disk.files) :
    path ∈ (env.handleFileUpdate other content disk).files := by
  unfold ProjectEnv.handleFileUpdate
  split
  · exact hmem
  · split
    · exact hmem
    · rw [← Finmap.lookup_isSome, FileTree.lookup_write]
      split
      · rfl
      · exact Finmap.lookup_isSome.mpr hmem

omit [DecidableEq ι] [DecidableEq κ] in
/-- A file whose key leads elsewhere stays. -/
theorem mem_runPathJobs (hstray : ¬ env.ComesBack path)
    (hdeletes : ∀ place, (place, .delete) ∈ jobOrder →
      ∃ source, env.globalizePath (env.localizePath source) = place)
    (hmem : path ∈ disk.files) : path ∈ (env.runPathJobs jobOrder disk).files := by
  induction jobOrder generalizing disk with
  | nil => exact hmem
  | cons job order ih =>
      refine ih (fun place hplace => hdeletes place (List.mem_cons_of_mem _ hplace)) ?_
      obtain ⟨place, action⟩ := job
      cases action with
      | update content =>
          cases place with
          | other elsewhere => exact env.mem_atOther_update elsewhere content disk path hmem
          | file other => exact mem_handleFileUpdate hmem
      | delete =>
          obtain ⟨source, hsource⟩ := hdeletes place List.mem_cons_self
          cases place with
          | other elsewhere =>
              exact env.mem_atOther_delete source elsewhere hsource disk path hstray hmem
          | file other =>
              have hne : path ≠ other := by
                rintro rfl
                exact hstray (env.globalize_localize source path hsource)
              show path ∈ (env.runJob disk (other, .delete)).files
              rw [← Finmap.lookup_isSome, ProjectEnv.lookup_runJob_of_ne hne]
              exact Finmap.lookup_isSome.mpr hmem

end Keyed

end KeyedEnv

namespace Project

variable [DecidableEq ρ] {env : KeyedEnv σ ι κ β δ} {filesAt : ρ → Option (FilesAt ι β δ)}
  {project : Project σ β δ ρ} {safe : Bool} {goalRef : ρ} {requested : Option ρ}
  {normOrder scanOrder : List (List σ × δ)} {goal : FilesAt ι β δ}
  {changeOrder : List (ι × FileJob β)} {jobOrder : List (DiskPath σ κ × FileJob β)}

omit [DecidableEq κ] in
/-- A sync that set the ref has run the jobs of that ref. -/
theorem disk_syncCorrectRef (hbefore : project.checkedOutRef ≠ some goalRef)
    (hset : (project.syncCorrectRef env filesAt safe requested normOrder scanOrder
      jobOrder).checkedOutRef = some goalRef) :
    (project.syncCorrectRef env filesAt safe requested normOrder scanOrder jobOrder).disk =
      env.runPathJobs jobOrder
        (project.resolvePendingNormalizedFiles env filesAt normOrder).disk := by
  have hresolved : (project.resolvePendingNormalizedFiles env filesAt normOrder).checkedOutRef =
      project.checkedOutRef := by
    unfold resolvePendingNormalizedFiles
    split
    · rfl
    · split <;> rfl
  unfold syncCorrectRef at hset ⊢
  by_cases hsafe : safe = false
  · rw [if_pos hsafe] at hset
    exact absurd hset hbefore
  rw [if_neg hsafe] at hset ⊢
  cases requested with
  | none => exact absurd hset hbefore
  | some wanted =>
      simp only at hset ⊢
      cases hproposed : project.proposedChanges env filesAt scanOrder wanted with
      | none =>
          rw [hproposed] at hset
          exact absurd (hresolved.symm.trans hset) hbefore
      | some changes => rfl

omit [DecidableEq ρ] in
/-- After a match, no file on disk had a key that leads elsewhere. -/
theorem comesBack_of_matches {resolved : FileTree σ β}
    (hkept : ∀ path, path ∈ project.disk.files → path ∈ resolved.files)
    (hdeletes : ∀ place, (place, .delete) ∈ jobOrder →
      ∃ source, env.globalizePath (env.localizePath source) = place)
    (hmatch : env.Matches (env.runPathJobs jobOrder resolved) goal) {path : List σ}
    (hfound : env.getAllFiles project.disk path ≠ none) : env.ComesBack path := by
  by_contra hstray
  obtain ⟨hash, hfound⟩ := Option.ne_none_iff_exists'.mp hfound
  obtain ⟨hvisible, content, hcontent, -⟩ := ProjectEnv.getAllFiles_eq_some_iff.mp hfound
  have hmem := KeyedEnv.mem_runPathJobs hstray hdeletes
    (hkept path (Finmap.mem_of_lookup_eq_some hcontent))
  obtain ⟨final, hfinal⟩ := Finmap.mem_iff.mp hmem
  exact hstray (hmatch.files path (env.toHash final)
    (ProjectEnv.getAllFiles_eq_some_iff.mpr ⟨hvisible, final, hfinal, rfl⟩)).1

/-- **After a sync that set the ref, the files on disk are those of the ref exactly
when all keys lead to files and back, every file that has to go can be removed and every file
of the ref can get to its place.** -/
theorem syncCorrectRef_matches_iff (hgoal : filesAt goalRef = some goal)
    {changes : ι → Option (FileJob β)}
    (hscan : ListsEntries (env.getAllFiles project.disk) scanOrder)
    (hproposed : project.proposedChanges env filesAt scanOrder goalRef = some changes)
    (hchanges : ListsEntries changes changeOrder)
    (hjobs : ListsEntries (env.joined changeOrder).lookup jobOrder)
    (hnorm : ListsEntries project.pendingNormalizedFiles.lookup normOrder)
    (hset : (project.syncCorrectRef env filesAt safe requested normOrder scanOrder
      jobOrder).checkedOutRef = some goalRef) :
    env.Matches
        (project.syncCorrectRef env filesAt safe requested normOrder scanOrder jobOrder).disk
        goal ↔ project.CheckoutLands env filesAt goal jobOrder := by
  unfold proposedChanges at hproposed
  split at hproposed
  · nomatch hproposed
  rename_i hbefore
  rw [hgoal, Option.map_some, Option.some.injEq] at hproposed
  subst hproposed
  rw [disk_syncCorrectRef hbefore hset]
  have hdirs : (project.resolvePendingNormalizedFiles env filesAt normOrder).disk.dirs =
      project.disk.dirs := dirs_resolvePendingNormalizedFiles
  have hnormalized := lookup_resolvePendingNormalizedFiles env filesAt hnorm
  constructor
  · intro hmatch
    have hreturns : ∀ key, env.getHashIndex goal key ≠ none → env.Returns key := by
      intro key hindex
      obtain ⟨hash, hindex⟩ := Option.ne_none_iff_exists'.mp hindex
      obtain ⟨path, hpath, hkey, -⟩ := hmatch.keys key hash hindex
      exact ⟨path, hpath, hkey⟩
    have hback : ∀ path, env.getAllFiles project.disk path ≠ none → env.ComesBack path := by
      intro path
      refine comesBack_of_matches (fun found hfound => ?_)
        (fun _ => KeyedEnv.exists_of_delete hscan hchanges hjobs) hmatch
      rw [← Finmap.lookup_isSome, Option.isSome_iff_ne_none, Ne,
        lookup_resolved_eq_none_iff hnormalized, ← Ne, ← Option.isSome_iff_ne_none,
        Finmap.lookup_isSome]
      exact hfound
    obtain ⟨hlists, hfiles⟩ :=
      KeyedEnv.listsEntries_fileJobs hscan hback hreturns hchanges hjobs
    rw [KeyedEnv.matches_iff hreturns, KeyedEnv.runPathJobs_of_files hfiles] at hmatch
    exact ⟨hreturns, hback, jobsLand_of_eq hlists hdirs hnormalized hmatch⟩
  · intro hlands
    obtain ⟨hlists, hfiles⟩ :=
      KeyedEnv.listsEntries_fileJobs hscan hlands.comesBack hlands.returns hchanges hjobs
    rw [KeyedEnv.matches_iff hlands.returns, KeyedEnv.runPathJobs_of_files hfiles]
    exact eq_of_jobsLand hlists hdirs hnormalized hlands.lands

end Project

/-! ## A file that is rewritten, and a file whose content is missing -/

/-- Surroundings that ignore and refuse nothing. -/
def plainEnv : ProjectEnv String String String where
  toHash := id
  shouldIgnore := fun _ _ => false
  unreadable := fun _ => false
  refused := fun _ => false

/-- Keys are lists of names, which backslashes separate as slashes do. -/
def slashKeys : PathKeys String (List String) Empty where
  localizePath path := path.flatMap (splitAtChar '\\')
  globalizePath key := .file key
  globalize_localize path found hfound := by
    obtain rfl := DiskPath.file.inj hfound
    have hsplit : ∀ name ∈ path.flatMap (splitAtChar '\\'), splitAtChar '\\' name = [name] := by
      intro name hname
      obtain ⟨segment, -, hname⟩ := List.mem_flatMap.mp hname
      exact splitAtChar_of_not_mem (not_mem_of_mem_splitAtChar hname)
    rw [List.flatMap_congr hsplit, List.flatMap_singleton']

/-- A project whose refs have these keys. -/
def slashEnv : KeyedEnv String (List String) Empty String String where
  toProjectEnv := plainEnv
  toPathKeys := slashKeys
  ignoresOther := nofun
  atOther := nofun
  mem_atOther_update := nofun
  mem_atOther_delete _ := nofun

/-- A disk with one file. -/
def oneFile (content : String) : FileTree String String :=
  FileTree.empty.write (fun _ => false) ["a"] content

/-- A branch with one file, whose linked content may be missing. -/
def oneFileAt (hash : String) (content : Option String) : FilesAt (List String) String String :=
  (∅ : FilesAt (List String) String String).insert ["a"] ⟨[hash], content⟩

/-- A project at a ref where the file is empty, and the goal at which it is not. -/
def oneFileProject : Project String String String Bool where
  disk := oneFile ""
  checkedOutRef := some false
  pendingNormalizedFiles := ∅

def oneFileRefs (content : Option String) (ref : Bool) :
    Option (FilesAt (List String) String String) :=
  some (if ref then oneFileAt "text" content else oneFileAt "" (some ""))

theorem getHashIndex_oneFileAt (hash : String) (content : Option String) (key : List String) :
    slashEnv.getHashIndex (oneFileAt hash content) key =
      if key = ["a"] then some hash else none := by
  by_cases heq : key = ["a"]
  · subst heq
    rfl
  · rw [if_neg heq, KeyedEnv.getHashIndex, oneFileAt, Finmap.lookup_insert_of_ne _ heq]
    rfl

theorem hashAt_oneFileAt (hash : String) (content : Option String) (path : List String) :
    slashEnv.hashAt (oneFileAt hash content) path = if path = ["a"] then some hash else none := by
  by_cases hpath : slashEnv.ComesBack path
  · have hkey : slashEnv.localizePath path = path := DiskPath.file.inj hpath
    rw [KeyedEnv.hashAt, if_pos hpath, hkey, getHashIndex_oneFileAt]
  · rw [KeyedEnv.hashAt, if_neg hpath, if_neg]
    rintro rfl
    exact hpath (by decide +kernel)

theorem lookup_oneFile (content : String) (path : List String) :
    (oneFile content).files.lookup path = if path = ["a"] then some content else none := by
  have haccepts : (FileTree.empty : FileTree String String).Accepts (fun _ => false) ["a"] := by
    decide
  simp only [oneFile, FileTree.lookup_write, haccepts, and_true]
  rfl

theorem listsEntries_oneFile : ListsEntries (slashEnv.getAllFiles oneFileProject.disk)
    [(["a"], "")] := by
  refine ⟨List.nodup_singleton _, fun path hash => ?_⟩
  rw [ProjectEnv.getAllFiles_of_visible ⟨rfl, rfl, fun _ _ _ => rfl⟩, oneFileProject,
    lookup_oneFile, List.mem_singleton, Prod.mk.injEq]
  by_cases hpath : path = ["a"]
  · rw [if_pos hpath, and_iff_right hpath, Option.map_some, Option.some.injEq]
    exact eq_comm
  · rw [if_neg hpath]
    exact iff_of_false (fun hboth => hpath hboth.1) nofun

theorem checkoutRef_oneFile_of_ne (content : Option String) {key : List String}
    (hne : key ≠ ["a"]) :
    slashEnv.checkoutRef [(["a"], "")] (oneFileAt "text" content) key = none := by
  apply changeJob_eq_none_of_eq
  have hscanned : slashEnv.localizePath ["a"] = ["a"] := by decide +kernel
  rw [getHashIndex_oneFileAt, if_neg hne, KeyedEnv.currentFiles, List.map_singleton, hscanned]
  exact (Finmap.lookup_insert_of_ne _ hne).trans (Finmap.lookup_empty _)

/-- The new content is there, and gets to the disk. -/
theorem oneFile_checkout_matches :
    slashEnv.Matches (oneFileProject.syncCorrectRef slashEnv (oneFileRefs (some "text")) true
      (some true) [] [(["a"], "")] [(.file ["a"], .update "text")]).disk
      (oneFileAt "text" (some "text")) := by
  have hchanges : ListsEntries (slashEnv.checkoutRef [(["a"], "")]
      (oneFileAt "text" (some "text"))) [(["a"], .update "text")] := by
    refine ⟨List.nodup_singleton _, fun key job => ?_⟩
    rw [List.mem_singleton, Prod.mk.injEq]
    by_cases hkey : key = ["a"]
    · subst hkey
      rw [show slashEnv.checkoutRef [(["a"], "")] (oneFileAt "text" (some "text")) ["a"] =
        some (.update "text") from by decide +kernel]
      simp [eq_comm]
    · rw [checkoutRef_oneFile_of_ne _ hkey]
      simp [hkey]
  have hjobs : ListsEntries (slashEnv.joined [(["a"], .update "text")]).lookup
      [(.file ["a"], .update "text")] := by
    refine ⟨List.nodup_singleton _, fun place job => ?_⟩
    by_cases hplace : place = .file ["a"]
    · subst hplace
      rw [List.mem_singleton, Prod.mk.injEq, and_iff_right rfl]
      exact Iff.trans eq_comm (Option.some.injEq _ _ ▸ Iff.rfl)
    · have hnone : (slashEnv.joined [(["a"], FileJob.update "text")]).lookup place = none :=
        (Finmap.lookup_insert_of_ne _ hplace).trans (Finmap.lookup_empty _)
      refine iff_of_false (fun hmem => ?_) (fun hjob => nomatch hnone.symm.trans hjob)
      exact hplace (Prod.mk.inj (List.mem_singleton.mp hmem)).1
  have hnorm : ListsEntries oneFileProject.pendingNormalizedFiles.lookup [] :=
    ⟨List.nodup_nil, fun path hash => by simp [oneFileProject]⟩
  have hgoal : oneFileRefs (some "text") true = some (oneFileAt "text" (some "text")) := rfl
  have hset : (oneFileProject.syncCorrectRef slashEnv (oneFileRefs (some "text")) true
      (some true) [] [(["a"], "")] [(.file ["a"], .update "text")]).checkedOutRef = some true :=
    rfl
  apply (Project.syncCorrectRef_matches_iff hgoal listsEntries_oneFile rfl hchanges hjobs hnorm
    hset).mpr
  have hindex : ∀ {path hash}, slashEnv.hashAt (oneFileAt "text" (some "text")) path = some hash →
      path = ["a"] ∧ hash = "text" := by
    intro path hash hpath
    rw [hashAt_oneFileAt] at hpath
    split at hpath
    · rename_i heq
      exact ⟨heq, (Option.some.inj hpath).symm⟩
    · nomatch hpath
  have hpresent : ∀ {path}, slashEnv.hashAt (oneFileAt "text" (some "text")) path ≠ none →
      path = ["a"] := by
    intro path hpath
    obtain ⟨hash, hpath⟩ := Option.ne_none_iff_exists'.mp hpath
    exact (hindex hpath).1
  constructor
  case returns =>
    intro key hkey
    rw [getHashIndex_oneFileAt, ne_eq, ite_eq_right_iff, Classical.not_imp] at hkey
    obtain ⟨rfl, -⟩ := hkey
    exact ⟨["a"], rfl, by decide +kernel⟩
  case comesBack =>
    intro path hpath
    obtain ⟨hash, hpath⟩ := Option.ne_none_iff_exists'.mp hpath
    obtain ⟨rfl, -⟩ := Prod.mk.inj
      (List.mem_singleton.mp ((listsEntries_oneFile.2 path hash).mpr hpath))
    decide +kernel
  case lands =>
    constructor
    case removed => exact fun _ _ _ => rfl
    case visible => exact fun _ _ => ⟨rfl, rfl, fun _ _ _ => rfl⟩
    case apart =>
      intro path hpath
      obtain rfl := hpresent hpath
      decide
    case kept =>
      intro path old _ _ content ⟨_, _, _, _, hpending, _⟩
      nomatch hpending
    case rewritten =>
      intro path old hash hold hpath hne
      obtain ⟨rfl, rfl⟩ := hindex hpath
      exact .inl ⟨"text", by decide +kernel, rfl, rfl⟩
    case created =>
      intro path hash hold hpath
      obtain ⟨rfl, rfl⟩ := hindex hpath
      nomatch hold

/-- Without the linked content no job is run, and the ref is set all the same. -/
theorem missingContent_not_matches :
    (oneFileProject.syncCorrectRef slashEnv (oneFileRefs none) true (some true) []
        [(["a"], "")] []).checkedOutRef = some true ∧
      ListsEntries (slashEnv.getAllFiles oneFileProject.disk) [(["a"], "")] ∧
      ListsEntries (slashEnv.checkoutRef [(["a"], "")] (oneFileAt "text" none)) [] ∧
      ListsEntries (slashEnv.joined []).lookup [] ∧
      ¬ slashEnv.Matches (oneFileProject.syncCorrectRef slashEnv (oneFileRefs none) true
        (some true) [] [(["a"], "")] []).disk (oneFileAt "text" none) := by
  refine ⟨rfl, listsEntries_oneFile, ⟨by decide, fun key job => ?_⟩,
    ⟨by decide, fun place job => ?_⟩, fun hmatch => ?_⟩
  · by_cases heq : key = ["a"]
    · subst heq
      rw [show slashEnv.checkoutRef [(["a"], "")] (oneFileAt "text" none) ["a"] = none from
        by decide +kernel]
      simp
    · rw [checkoutRef_oneFile_of_ne _ heq]
      simp
  · simp [KeyedEnv.joined, HashMap.collect]
  · obtain ⟨path, hpath, hkey, hfile⟩ := hmatch.keys ["a"] "text" (by decide)
    obtain rfl := DiskPath.file.inj hpath
    exact absurd hfile (by decide)

end Backstitch
