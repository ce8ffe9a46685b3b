/-
# What the steps of the sync loop do

`LoopStep` says once what each step of the loop can do and when.  A file that does not change is
met by a traversal as it is, and a commit leaves it as it was read.
-/

import Backstitch.Project.SyncLoop

namespace Backstitch

universe u v w u₁ u₂

variable {σ : Type u} {β : Type v} {δ : Type w} {κ : Type u₁} {χ : Type u₂}
  [DecidableEq σ] [DecidableEq δ]

/-! ## Traversals and commits -/

section Traversals

variable {env : SyncEnv σ β δ} {disk : FileTree σ β} {moments : List (FileTree σ β)}
  {pick : List σ → ℕ} {files : FilesAt (List σ) β δ} {path : List σ}

omit [DecidableEq δ] in
/-- Where a file does not change, a traversal meets it as it is. -/
theorem lookup_momentOf
    (hsame : ∀ moment ∈ moments, moment.files.lookup path = disk.files.lookup path) :
    (momentOf disk moments pick path).files.lookup path = disk.files.lookup path := by
  unfold momentOf
  cases hmoment : moments[pick path]? with
  | none => rfl
  | some moment => exact hsame moment (List.mem_of_getElem? hmoment)

omit [DecidableEq δ] in
theorem scan_eq_getAllFiles
    (hsame : ∀ moment ∈ moments, moment.files.lookup path = disk.files.lookup path) :
    env.scan disk moments pick path = env.getAllFiles disk path := by
  rw [ProjectEnv.scan, ProjectEnv.getAllFiles, ProjectEnv.getAllFiles, lookup_momentOf hsame]

omit [DecidableEq δ] in
theorem mem_pathsOf_disk (hpath : path ∈ disk.files) : path ∈ pathsOf files disk moments := by
  unfold pathsOf
  induction moments with
  | nil => exact Finset.mem_union_left _ (Finmap.mem_keys.mpr hpath)
  | cons moment moments ih => exact Finset.mem_union_right _ ih

omit [DecidableEq δ] in
theorem mem_pathsOf_files (hpath : path ∈ files) : path ∈ pathsOf files disk moments := by
  unfold pathsOf
  induction moments with
  | nil => exact Finset.mem_union_right _ (Finmap.mem_keys.mpr hpath)
  | cons moment moments ih => exact Finset.mem_union_right _ ih

omit [DecidableEq δ] in
/-- What an index says although some content is missing, it says anyway. -/
theorem getHashIndexWithout_le {missing : List σ → Bool} {hash : δ}
    (hindex : env.getHashIndexWithout files missing path = some hash) :
    env.getHashIndex files path = some hash := by
  unfold ProjectEnv.getHashIndexWithout at hindex
  unfold ProjectEnv.getHashIndex
  split at hindex
  · cases hindex
  · rename_i hignored
    rw [if_neg hignored]
    obtain ⟨entry, hentry, hhash⟩ := Option.bind_eq_some_iff.mp hindex
    rw [hentry, Option.bind_some]
    split at hhash
    · unfold ProjectEnv.entryHash at hhash ⊢
      split at hhash
      · rename_i stored hstored
        rw [show entry.hashes = [stored] from hstored]
        exact hhash
      · cases hhash
    · exact hhash

omit [DecidableEq δ] in
/-- What can be read although some content is missing, can be read anyway. -/
theorem getFileWithout_le {missing : List σ → Bool} {content : β}
    (hfile : getFileWithout files missing path = some content) :
    getFileAtRef files path = some content := by
  unfold getFileWithout at hfile
  split at hfile
  · cases hfile
  · exact hfile

omit [DecidableEq σ] [DecidableEq δ] in
/-- A list that is filtered by its paths keeps them apart. -/
theorem nodup_map_fst_filterMap {ε : Type*} {read : List σ → Option (List σ × ε)}
    (hread : ∀ path entry, read path = some entry → entry.1 = path) {order : List (List σ)}
    (hnodup : order.Nodup) : ((order.filterMap read).map Prod.fst).Nodup := by
  refine List.Sublist.nodup ?_ hnodup
  induction order with
  | nil => exact .slnil
  | cons path order ih =>
      have ih := ih (List.nodup_cons.mp hnodup).2
      cases hentry : read path with
      | none =>
          rw [List.filterMap_cons_none hentry]
          exact ih.cons path
      | some entry =>
          rw [List.filterMap_cons_some hentry, List.map_cons, hread path entry hentry]
          exact ih.cons_cons path

omit [DecidableEq δ] in
theorem fst_of_readFile {readFails : List σ → Bool} {entry : List σ × Option β}
    (hread : env.readFile disk moments pick readFails path = some entry) : entry.1 = path := by
  unfold SyncEnv.readFile at hread
  split at hread
  · cases hread
  · rw [← Option.some.inj hread]

omit [DecidableEq δ] in
/-- A file that does not change is committed as it is, if it is among those read and can be. -/
theorem lookup_foldl_commitEntry {readFails : List σ → Bool} {order : List (List σ)}
    (hnodup : order.Nodup) (hpath : path ∈ order) (hreads : readFails path = false)
    (hsame : ∀ moment ∈ moments, moment.files.lookup path = disk.files.lookup path) :
    ((order.filterMap (env.readFile disk moments pick readFails)).foldl
        (CommitCall.commitEntry env.toProjectEnv) files).lookup path =
      ((disk.files.lookup path).map env.normalize).map
        fun content => ⟨[env.toHash content], some content⟩ := by
  have hentry : (path, (disk.files.lookup path).map env.normalize) ∈
      order.filterMap (env.readFile disk moments pick readFails) := by
    refine List.mem_filterMap.mpr ⟨path, hpath, ?_⟩
    rw [SyncEnv.readFile, hreads, if_neg Bool.false_ne_true, lookup_momentOf hsame]
  exact (HashMap.lookup_foldl_of_local (CommitCall.lookup_commitEntry_self env.toProjectEnv)
    (CommitCall.lookup_commitEntry_other env.toProjectEnv)
    (nodup_map_fst_filterMap (fun _ _ => fst_of_readFile) hnodup) files).1 _ hentry

omit [DecidableEq δ] in
theorem not_mem_map_fst_readFile {readFails : List σ → Bool} {order : List (List σ)}
    (hpath : path ∉ order ∨ readFails path = true) :
    path ∉ (order.filterMap (env.readFile disk moments pick readFails)).map Prod.fst := by
  intro hmem
  obtain ⟨entry, hentry, rfl⟩ := List.mem_map.mp hmem
  obtain ⟨other, hother, hread⟩ := List.mem_filterMap.mp hentry
  obtain rfl := fst_of_readFile hread
  rcases hpath with hpath | hfails
  · exact hpath hother
  · rw [SyncEnv.readFile, if_pos hfails] at hread
    cases hread

omit [DecidableEq δ] in
/-- A file that is not read is committed as it was. -/
theorem lookup_foldl_commitEntry_of_not_mem {readFails : List σ → Bool} {order : List (List σ)}
    (hnodup : order.Nodup) (hpath : path ∉ order ∨ readFails path = true) :
    ((order.filterMap (env.readFile disk moments pick readFails)).foldl
        (CommitCall.commitEntry env.toProjectEnv) files).lookup path = files.lookup path := by
  exact (HashMap.lookup_foldl_of_local (CommitCall.lookup_commitEntry_self env.toProjectEnv)
    (CommitCall.lookup_commitEntry_other env.toProjectEnv)
    (nodup_map_fst_filterMap (fun _ _ => fst_of_readFile) hnodup) files).2 path
      (not_mem_map_fst_readFile hpath)

/-- A file that is not read has noted for it what it had. -/
theorem lookup_foldl_noteStatus_of_not_mem {readFails : List σ → Bool} {order : List (List σ)}
    {scanned : List σ → Option δ} {skipFiles : HashMap (List σ) δ} (hnodup : order.Nodup)
    (hpath : path ∉ order ∨ readFails path = true) :
    (((order.filterMap (env.readFile disk moments pick readFails)).map fun entry => (entry.1,
        (⟨scanned entry.1, entry.2.map env.toHash⟩ : CommitStatus δ))).foldl noteStatus
          skipFiles).lookup path = skipFiles.lookup path := by
  refine (HashMap.lookup_foldl_of_local CommitCall.lookup_noteStatus_self
    CommitCall.lookup_noteStatus_other ?_ skipFiles).2 path ?_
  · rw [List.map_map]
    exact nodup_map_fst_filterMap (fun _ _ => fst_of_readFile) hnodup
  · rw [List.map_map]
    exact not_mem_map_fst_readFile hpath

end Traversals

namespace ProjectEnv

variable {env : ProjectEnv σ β δ} {disk : FileTree σ β} {path : List σ} {content : β}

/-- An update leaves what was there, or puts its content there. -/
theorem lookup_handleFileUpdate_self {found : β}
    (hfound : (env.handleFileUpdate path content disk).files.lookup path = some found) :
    disk.files.lookup path = some found ∨ found = content := by
  unfold handleFileUpdate at hfound
  split at hfound
  · exact .inl hfound
  · split at hfound
    · exact .inl hfound
    · rw [FileTree.lookup_write] at hfound
      split at hfound
      · exact .inr (Option.some.inj hfound).symm
      · exact .inl hfound

/-- What a job puts at a path is the content of an update of this path. -/
theorem lookup_runJob {job : List σ × FileJob β} {found : β}
    (hfound : (env.runJob disk job).files.lookup path = some found) :
    disk.files.lookup path = some found ∨ job = (path, .update found) := by
  by_cases hpath : path = job.1
  · obtain ⟨other, action⟩ := job
    obtain rfl : path = other := hpath
    cases action with
    | update content =>
        rcases lookup_handleFileUpdate_self hfound with hkept | rfl
        · exact .inl hkept
        · exact .inr rfl
    | delete =>
        change (env.handleFileDelete path disk).files.lookup path = some found at hfound
        unfold handleFileDelete at hfound
        split at hfound
        · exact .inl hfound
        · rw [FileTree.lookup_remove] at hfound
          split at hfound
          · cases hfound
          · exact .inl hfound
  · rw [lookup_runJob_of_ne hpath] at hfound
    exact .inl hfound

end ProjectEnv

theorem LoopState.fst_of_toNormalize {env : SyncEnv σ β δ} {state : LoopState σ β δ κ χ}
    {contents : List σ → Option β} {entry : Entry (List σ) δ} {found : List σ × β}
    (hfound : state.toNormalize env contents entry = some found) : found.1 = entry.1 := by
  unfold LoopState.toNormalize at hfound
  split at hfound
  · cases hfound
  · split at hfound
    · obtain ⟨content, -, rfl⟩ := Option.map_eq_some_iff.mp hfound
      rfl
    · cases hfound

/-! ## What a step can do -/

section LoopStep

variable [DecidableEq β] [DecidableEq κ] [DecidableEq χ]

/-- Everything that a step can do, and when. -/
inductive LoopStep (env : SyncEnv σ β δ) (state : LoopState σ β δ κ χ) :
    LoopAction σ β δ κ χ → LoopState σ β δ κ χ → Prop
  | edit {path : List σ} {disk : FileTree σ β}
      (hother : ∀ other, other ≠ path →
        disk.files.lookup other = state.disk.files.lookup other) :
      LoopStep env state (.edit path disk)
        { state with disk := disk, phase := state.phase.watch disk }
  | deliver {path : List σ} (hunlocked : state.phase.locksPending = false) :
      LoopStep env state (.deliver path)
        { state with pendingChanges := state.pendingChanges ++ [path] }
  | setSafe {safe : Bool} :
      LoopStep env state (.setSafeToUpdateEditor safe) { state with safeToUpdateEditor := safe }
  | merge {branch : κ} {heads : Finset χ} {files : FilesAt (List σ) β δ}
      (hheads : state.filesAt ⟨branch, heads⟩ = none ∨
        state.filesAt ⟨branch, heads⟩ = some files) :
      LoopStep env state (.merge branch heads files) { state with
        filesAt := Function.update state.filesAt ⟨branch, heads⟩ (some files)
        shadowHeads := Function.update state.shadowHeads branch (some heads) }
  | dropShadow {branch : κ} : LoopStep env state (.dropShadow branch)
      { state with shadowHeads := Function.update state.shadowHeads branch none }
  | startChoosing (hphase : state.phase = .idle)
      (hnothing : state.checkedOutRef = none ∨ state.pendingChanges = []) :
      LoopStep env state .sync { state with phase := .choosing }
  | startScan {ref : HistoryRef κ χ} (hphase : state.phase = .idle)
      (href : state.checkedOutRef = some ref) (hpending : state.pendingChanges ≠ []) :
      LoopStep env state .sync { state with phase := .scanning ref [state.disk] }
  | failIndex {ref : HistoryRef κ χ} {moments : List (FileTree σ β)}
      (hphase : state.phase = .scanning ref moments) :
      LoopStep env state .failIndex { state with phase := .choosing }
  | findNothing {ref : HistoryRef κ χ} {moments : List (FileTree σ β)}
      {files : FilesAt (List σ) β δ} {pick : List σ → ℕ} {missing : List σ → Bool}
      (hphase : state.phase = .scanning ref moments) (hfiles : state.filesAt ref = some files)
      (horder : ListsChanged (commitChanges (env.getHashIndexWithout files missing)
        (env.scan state.disk moments pick) state.pendingNormalizedFiles)
        (pathsOf files state.disk moments) []) :
      LoopStep env state (.finishScan pick missing [])
        { state with pendingChanges := [], phase := .choosing }
  | findChanges {ref : HistoryRef κ χ} {moments : List (FileTree σ β)}
      {files : FilesAt (List σ) β δ} {pick : List σ → ℕ} {missing : List σ → Bool}
      {order : List (List σ)}
      (hphase : state.phase = .scanning ref moments) (hfiles : state.filesAt ref = some files)
      (horder : ListsChanged (commitChanges (env.getHashIndexWithout files missing)
        (env.scan state.disk moments pick) state.pendingNormalizedFiles)
        (pathsOf files state.disk moments) order)
      (hchanges : order ≠ []) :
      LoopStep env state (.finishScan pick missing order) { state with
        phase := .reading ref (env.scan state.disk moments pick) order [state.disk] }
  | commitNowhere {ref : HistoryRef κ χ} {scanned : List σ → Option δ} {order : List (List σ)}
      {moments : List (FileTree σ β)} {pick : List σ → ℕ} {readFails : List σ → Bool}
      {newHeads : Finset χ} (hphase : state.phase = .reading ref scanned order moments)
      (hshadow : state.shadowHeads ref.branch = none) :
      LoopStep env state (.commit pick readFails newHeads)
        { state with pendingChanges := [], phase := .choosing }
  | commit {ref : HistoryRef κ χ} {scanned : List σ → Option δ} {order : List (List σ)}
      {moments : List (FileTree σ β)} {pick : List σ → ℕ} {readFails : List σ → Bool}
      {heads newHeads : Finset χ} {files stored : FilesAt (List σ) β δ}
      {contents : List (List σ × Option β)}
      (hphase : state.phase = .reading ref scanned order moments)
      (hshadow : state.shadowHeads ref.branch = some heads)
      (hfiles : state.filesAt ⟨ref.branch, heads⟩ = some files)
      (hcontents : contents = order.filterMap (env.readFile state.disk moments pick readFails))
      (hstored : stored = contents.foldl (CommitCall.commitEntry env.toProjectEnv) files)
      (hheads : state.filesAt ⟨ref.branch, newHeads⟩ = none ∨ newHeads = heads ∧ stored = files) :
      LoopStep env state (.commit pick readFails newHeads)
        (state.committed env ref.branch scanned contents newHeads stored)
  | chooseUnsafe {branch : κ} (hphase : state.phase = .choosing)
      (hbusy : state.safeToUpdateEditor = false) :
      LoopStep env state (.choose branch) { state with phase := .idle }
  | chooseSame {branch : κ} {heads : Finset χ} (hphase : state.phase = .choosing)
      (hsafe : state.safeToUpdateEditor = true) (hheads : state.shadowHeads branch = some heads)
      (hsame : state.checkedOutRef = some ⟨branch, heads⟩) :
      LoopStep env state (.choose branch)
        (state.startWaiting ⟨branch, heads⟩ state.checkedOutRef none)
  | chooseOther {branch : κ} {heads : Finset χ} (hphase : state.phase = .choosing)
      (hsafe : state.safeToUpdateEditor = true) (hheads : state.shadowHeads branch = some heads)
      (hother : state.checkedOutRef ≠ some ⟨branch, heads⟩) :
      LoopStep env state (.choose branch) { state with
        phase := .comparing ⟨branch, heads⟩ state.checkedOutRef [state.disk] }
  | noGoal (hphase : state.phase = .choosing) :
      LoopStep env state .noGoal { state with phase := .idle }
  | failGoal {goal : HistoryRef κ χ} {checkedOut : Option (HistoryRef κ χ)}
      {moments : List (FileTree σ β)} (hphase : state.phase = .comparing goal checkedOut moments) :
      LoopStep env state .failGoal (state.startWaiting goal checkedOut none)
  | propose {goal : HistoryRef κ χ} {checkedOut : Option (HistoryRef κ χ)}
      {moments : List (FileTree σ β)} {files : FilesAt (List σ) β δ} {pick : List σ → ℕ}
      {missingHashes missing : List σ → Bool} {order : List (List σ)}
      {changes : List σ → Option ChangeType}
      (hphase : state.phase = .comparing goal checkedOut moments)
      (hfiles : state.filesAt goal = some files)
      (hchanges : changes = getFileChanges (env.scan state.disk moments pick)
        (env.getHashIndexWithout files missingHashes))
      (horder : ListsChanged changes (pathsOf files state.disk moments) order) :
      LoopStep env state (.propose pick missingHashes missing order)
        (state.startWaiting goal checkedOut
          (some (order.filterMap (jobOf changes (getFileWithout files missing)))))
  | passRefused {goal : HistoryRef κ χ} {checkedOut : Option (HistoryRef κ χ)}
      {changes : Option (List (List σ × FileJob β))} {missing : List σ → Bool}
      {order : Option (List (Entry (List σ) δ))}
      (hphase : state.phase = .waiting goal checkedOut changes)
      (hrefused : state.checkedOutRef ≠ checkedOut ∨ state.safeToUpdateEditor = false) :
      LoopStep env state (.pass missing order) { state with phase := .idle }
  | passNormalizing {goal ref : HistoryRef κ χ} {changes : Option (List (List σ × FileJob β))}
      {missing : List σ → Bool} {order : List (Entry (List σ) δ)} {files : FilesAt (List σ) β δ}
      (hphase : state.phase = .waiting goal (some ref) changes)
      (hsame : state.checkedOutRef = some ref) (hsafe : state.safeToUpdateEditor = true)
      (hfiles : state.filesAt ref = some files)
      (horder : state.pendingNormalizedFiles.Iterates order) :
      LoopStep env state (.pass missing (some order)) { state with
        phase := .normalizing goal changes (getFileWithout files missing) order none }
  | passWriting {goal : HistoryRef κ χ} {checkedOut : Option (HistoryRef κ χ)}
      {changes : Option (List (List σ × FileJob β))} {missing : List σ → Bool}
      {order : Option (List (Entry (List σ) δ))}
      (hphase : state.phase = .waiting goal checkedOut changes)
      (hsame : state.checkedOutRef = checkedOut) (hsafe : state.safeToUpdateEditor = true)
      (hskips : checkedOut = none ∨ order = none) :
      LoopStep env state (.pass missing order) (state.startWriting goal changes)
  | compareHash {goal : HistoryRef κ χ} {changes : Option (List (List σ × FileJob β))}
      {contents : List σ → Option β} {entry : Entry (List σ) δ} {todo : List (Entry (List σ) δ)}
      (hphase : state.phase = .normalizing goal changes contents (entry :: todo) none) :
      LoopStep env state .compareHash { state with
        phase := .normalizing goal changes contents todo (state.toNormalize env contents entry) }
  | writeNormalized {goal : HistoryRef κ χ} {changes : Option (List (List σ × FileJob β))}
      {contents : List σ → Option β} {todo : List (Entry (List σ) δ)} {path : List σ} {content : β}
      (hphase : state.phase = .normalizing goal changes contents todo (some (path, content))) :
      LoopStep env state .writeNormalized { state with
        disk := env.handleFileUpdate path content state.disk
        phase := .normalizing goal changes contents todo none }
  | endNormalizing {goal : HistoryRef κ χ} {changes : Option (List (List σ × FileJob β))}
      {contents : List σ → Option β}
      (hphase : state.phase = .normalizing goal changes contents [] none) :
      LoopStep env state .endNormalizing
        ({ state with pendingNormalizedFiles := ∅ }.startWriting goal changes)
  | runJob {goal : HistoryRef κ χ} {job : List σ × FileJob β} {jobs : List (List σ × FileJob β)}
      (hphase : state.phase = .writing goal (job :: jobs)) :
      LoopStep env state .runJob
        { state with disk := env.runJob state.disk job, phase := .writing goal jobs }
  | finish {goal : HistoryRef κ χ} (hphase : state.phase = .writing goal []) :
      LoopStep env state .finish { state with checkedOutRef := some goal, phase := .idle }

variable {env : SyncEnv σ β δ} {state next : LoopState σ β δ κ χ} {action : LoopAction σ β δ κ χ}

/-- **A step does nothing else.** -/
theorem loopStep_of_step (hstep : state.step env action = some next) :
    LoopStep env state action next := by
  cases action with
  | edit path disk =>
      rw [LoopState.step, Option.ite_none_right_eq_some] at hstep
      obtain ⟨hsame, hnext⟩ := hstep
      obtain rfl := Option.some.inj hnext
      refine .edit fun other hother => ?_
      rw [← Finmap.lookup_erase_ne hother, hsame, Finmap.lookup_erase_ne hother]
  | deliver path =>
      rw [LoopState.step] at hstep
      split at hstep
      · cases hstep
      · obtain rfl := Option.some.inj hstep
        exact .deliver (Bool.eq_false_iff.mpr ‹_›)
  | setSafeToUpdateEditor safe =>
      obtain rfl := Option.some.inj hstep
      exact .setSafe
  | merge branch heads files =>
      rw [LoopState.step, Option.ite_none_right_eq_some] at hstep
      obtain ⟨hheads, hnext⟩ := hstep
      obtain rfl := Option.some.inj hnext
      exact .merge hheads
  | dropShadow branch =>
      obtain rfl := Option.some.inj hstep
      exact .dropShadow
  | sync =>
      rw [LoopState.step] at hstep
      split at hstep
      · rename_i hphase
        split at hstep
        · obtain rfl := Option.some.inj hstep
          exact .startChoosing hphase (.inl ‹_›)
        · rename_i ref href
          split at hstep
          · obtain rfl := Option.some.inj hstep
            exact .startChoosing hphase (.inr ‹_›)
          · obtain rfl := Option.some.inj hstep
            exact .startScan hphase href ‹_›
      · cases hstep
  | failIndex =>
      rw [LoopState.step] at hstep
      split at hstep
      · obtain rfl := Option.some.inj hstep
        exact .failIndex ‹_›
      · cases hstep
  | finishScan pick missing order =>
      rw [LoopState.step] at hstep
      split at hstep
      · rename_i ref moments hphase
        rw [LoopState.finishScan, Option.bind_eq_some_iff] at hstep
        obtain ⟨files, hfiles, hstep⟩ := hstep
        rw [Option.ite_none_right_eq_some] at hstep
        obtain ⟨horder, hstep⟩ := hstep
        split at hstep
        · rename_i hempty
          subst hempty
          obtain rfl := Option.some.inj hstep
          exact .findNothing hphase hfiles horder
        · obtain rfl := Option.some.inj hstep
          exact .findChanges hphase hfiles horder ‹_›
      · cases hstep
  | commit pick readFails newHeads =>
      rw [LoopState.step] at hstep
      split at hstep
      · rename_i ref scanned order moments hphase
        rw [LoopState.commit] at hstep
        split at hstep
        · obtain rfl := Option.some.inj hstep
          exact .commitNowhere hphase ‹_›
        · rename_i heads hshadow
          rw [Option.bind_eq_some_iff] at hstep
          obtain ⟨files, hfiles, hstep⟩ := hstep
          rw [Option.ite_none_right_eq_some] at hstep
          obtain ⟨hheads, hstep⟩ := hstep
          obtain rfl := Option.some.inj hstep
          exact .commit hphase hshadow hfiles rfl rfl hheads
      · cases hstep
  | choose branch =>
      rw [LoopState.step] at hstep
      split at hstep
      · rename_i hphase
        rw [LoopState.choose] at hstep
        split at hstep
        · rename_i hsafe
          rw [Option.map_eq_some_iff] at hstep
          obtain ⟨heads, hheads, hstep⟩ := hstep
          split at hstep
          · subst hstep
            exact .chooseSame hphase hsafe hheads ‹_›
          · subst hstep
            exact .chooseOther hphase hsafe hheads ‹_›
        · obtain rfl := Option.some.inj hstep
          exact .chooseUnsafe hphase (Bool.eq_false_iff.mpr ‹_›)
      · cases hstep
  | noGoal =>
      rw [LoopState.step] at hstep
      split at hstep
      · obtain rfl := Option.some.inj hstep
        exact .noGoal ‹_›
      · cases hstep
  | failGoal =>
      rw [LoopState.step] at hstep
      split at hstep
      · obtain rfl := Option.some.inj hstep
        exact .failGoal ‹_›
      · cases hstep
  | propose pick missingHashes missing order =>
      rw [LoopState.step] at hstep
      split at hstep
      · rename_i goal checkedOut moments hphase
        rw [LoopState.propose, Option.bind_eq_some_iff] at hstep
        obtain ⟨files, hfiles, hstep⟩ := hstep
        rw [Option.ite_none_right_eq_some] at hstep
        obtain ⟨horder, hstep⟩ := hstep
        obtain rfl := Option.some.inj hstep
        exact .propose hphase hfiles rfl horder
      · cases hstep
  | pass missing order =>
      rw [LoopState.step] at hstep
      split at hstep
      · rename_i goal checkedOut changes hphase
        unfold LoopState.pass at hstep
        split at hstep
        · obtain rfl := Option.some.inj hstep
          exact .passRefused hphase ‹_›
        · rename_i hpasses
          obtain ⟨hsame, hsafe⟩ := not_or.mp hpasses
          have hsame := not_not.mp hsame
          have hsafe := Bool.eq_true_of_not_eq_false hsafe
          split at hstep
          · rename_i ref order
            rw [Option.bind_eq_some_iff] at hstep
            obtain ⟨files, hfiles, hstep⟩ := hstep
            rw [Option.ite_none_right_eq_some] at hstep
            obtain ⟨horder, hstep⟩ := hstep
            obtain rfl := Option.some.inj hstep
            exact .passNormalizing hphase hsame hsafe hfiles horder
          · rename_i hskips
            obtain rfl := Option.some.inj hstep
            refine .passWriting hphase hsame hsafe ?_
            cases checkedOut with
            | none => exact .inl rfl
            | some ref =>
                cases order with
                | none => exact .inr rfl
                | some order => exact (hskips ref order rfl rfl).elim
      · cases hstep
  | compareHash =>
      rw [LoopState.step] at hstep
      split at hstep
      · obtain rfl := Option.some.inj hstep
        exact .compareHash ‹_›
      · cases hstep
  | writeNormalized =>
      rw [LoopState.step] at hstep
      split at hstep
      · obtain rfl := Option.some.inj hstep
        exact .writeNormalized ‹_›
      · cases hstep
  | endNormalizing =>
      rw [LoopState.step] at hstep
      split at hstep
      · obtain rfl := Option.some.inj hstep
        exact .endNormalizing ‹_›
      · cases hstep
  | runJob =>
      rw [LoopState.step] at hstep
      split at hstep
      · obtain rfl := Option.some.inj hstep
        exact .runJob ‹_›
      · cases hstep
  | finish =>
      rw [LoopState.step] at hstep
      split at hstep
      · obtain rfl := Option.some.inj hstep
        exact .finish ‹_›
      · cases hstep

omit [DecidableEq β] in
/-- What heads hold never changes. -/
theorem filesAt_of_loopStep (hstep : LoopStep env state action next) {ref : HistoryRef κ χ}
    {files : FilesAt (List σ) β δ} (hfiles : state.filesAt ref = some files) :
    next.filesAt ref = some files := by
  cases hstep with
  | @merge branch heads found hheads =>
      show Function.update state.filesAt ⟨branch, heads⟩ (some found) ref = some files
      by_cases href : ref = ⟨branch, heads⟩
      · subst href
        rw [Function.update_self]
        rcases hheads with hheads | hheads
        · rw [hfiles] at hheads
          cases hheads
        · exact hheads.symm.trans hfiles
      · rw [Function.update_of_ne href]
        exact hfiles
  | @commit branch _ _ _ _ _ heads newHeads found stored _ _ _ hfound _ _ hheads =>
      show Function.update state.filesAt ⟨branch.branch, newHeads⟩ (some stored) ref = some files
      by_cases href : ref = ⟨branch.branch, newHeads⟩
      · subst href
        rw [Function.update_self]
        rcases hheads with hheads | ⟨rfl, rfl⟩
        · rw [hfiles] at hheads
          cases hheads
        · exact hfound.symm.trans hfiles
      · rw [Function.update_of_ne href]
        exact hfiles
  | _ => exact hfiles

end LoopStep

end Backstitch
