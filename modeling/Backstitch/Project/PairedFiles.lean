/-
# Files under paths and under keys

Where the keys of all files lead back to them, a ref can be taken to have its files under their
paths.  The sync loop is modelled so: what it compares, writes, commits and notes is then what
the functions with `localize_path` and `globalize_path` compare, write, commit and note.  The
reconcile at the end of `commit_fs_changes` is a merge of the loop, which comes right after.
-/

import Backstitch.Project.LoopSteps

namespace Backstitch

universe u v w x y u₁ u₂

variable {σ : Type u} {β : Type v} {δ : Type w} {ι : Type x} {κ : Type y}
  [DecidableEq σ] [DecidableEq δ] [DecidableEq ι]

/-- Where one element alone is kept, it is the last one. -/
theorem getLast?_filter_of_unique {α : Type*} {items : List α} {item : α} {keep : α → Bool}
    (hmem : item ∈ items) (hkeep : ∀ other ∈ items, keep other = true ↔ other = item) :
    (items.filter keep).getLast? = some item := by
  have hkept : item ∈ items.filter keep := List.mem_filter.mpr ⟨hmem, (hkeep item hmem).mpr rfl⟩
  obtain ⟨last, hlast⟩ := Option.isSome_iff_exists.mp
    (List.getLast?_isSome.mpr (List.ne_nil_of_mem hkept))
  obtain ⟨hlistMem, hlastKept⟩ := List.mem_filter.mp (List.mem_of_getLast? hlast)
  rw [hlast, (hkeep last hlistMem).mp hlastKept]

section Jobs

variable {before after : List σ → Option δ} {contents : List σ → Option β} {path : List σ}

omit [DecidableEq σ] [DecidableEq ι] in
/-- The loop has the jobs of a checkout next to their paths. -/
theorem jobOf_eq : jobOf (getFileChanges before after) contents path =
    (changeJob before after contents path).map (Prod.mk path) := by
  unfold jobOf changeJob
  cases getFileChanges before after path with
  | none => rfl
  | some change => cases change <;> cases contents path <;> rfl

omit [DecidableEq ι] [DecidableEq δ] in
/-- What a traversal meets or an index has is on disk or in the ref. -/
theorem mem_pathsOf {env : ProjectEnv σ β δ} {disk : FileTree σ β}
    {moments : List (FileTree σ β)} {files : FilesAt (List σ) β δ}
    (hpath : env.getAllFiles disk path ≠ none ∨ env.getHashIndex files path ≠ none) :
    path ∈ pathsOf files disk moments := by
  rcases hpath with hfound | hindex
  · obtain ⟨hash, hfound⟩ := Option.ne_none_iff_exists'.mp hfound
    obtain ⟨-, content, hcontent, -⟩ := ProjectEnv.getAllFiles_eq_some_iff.mp hfound
    exact mem_pathsOf_disk (Finmap.mem_of_lookup_eq_some hcontent)
  · refine mem_pathsOf_files ?_
    by_contra hmissing
    rw [ProjectEnv.getHashIndex, Finmap.lookup_eq_none.mpr hmissing, Option.bind_none, ite_self]
      at hindex
    exact hindex rfl

omit [DecidableEq ι] in
theorem getFileChanges_of_commitChanges {skipFiles : HashMap (List σ) δ}
    (hchange : commitChanges before after skipFiles path ≠ none) :
    getFileChanges before after path ≠ none := by
  unfold commitChanges at hchange
  split at hchange
  · split at hchange
    · exact hchange
    · exact absurd rfl hchange
  · exact hchange

/-- Every list of jobs at the files that change comes of an order of these files. -/
theorem exists_order {env : ProjectEnv σ β δ} {disk : FileTree σ β}
    {files : FilesAt (List σ) β δ} {jobs : List (List σ × FileJob β)}
    (moments : List (FileTree σ β))
    (hjobs : ListsEntries (changeJob (env.getAllFiles disk) (env.getHashIndex files)
      (getFileAtRef files)) jobs) :
    let changes := getFileChanges (env.getAllFiles disk) (env.getHashIndex files)
    ∃ order, ListsChanged changes (pathsOf files disk moments) order ∧
      order.filterMap (jobOf changes (getFileAtRef files)) = jobs := by
  intro changes
  have hjob : ∀ entry ∈ jobs, jobOf changes (getFileAtRef files) entry.1 = some entry := by
    intro entry hentry
    rw [jobOf_eq, (hjobs.2 entry.1 entry.2).mp hentry, Option.map_some]
  have hmem : ∀ path, path ∈ jobs.map Prod.fst ↔
      jobOf changes (getFileAtRef files) path ≠ none := by
    intro path
    constructor
    · intro hpath
      obtain ⟨entry, hentry, rfl⟩ := List.mem_map.mp hpath
      rw [hjob entry hentry]
      exact nofun
    · intro hpath
      rw [jobOf_eq, Ne, Option.map_eq_none_iff] at hpath
      obtain ⟨job, hchange⟩ := Option.ne_none_iff_exists'.mp hpath
      exact List.mem_map.mpr ⟨(path, job), (hjobs.2 path job).mpr hchange, rfl⟩
  -- the files that change but cannot be read have no job; they can come last
  let rest := ((pathsOf files disk moments).filter fun path =>
    changes path ≠ none ∧ jobOf changes (getFileAtRef files) path = none).toList
  have hrest : ∀ path ∈ rest, jobOf changes (getFileAtRef files) path = none := fun path hpath =>
    (Finset.mem_filter.mp (Finset.mem_toList.mp hpath)).2.2
  refine ⟨jobs.map Prod.fst ++ rest, ⟨?_, ?_⟩, ?_⟩
  · refine List.nodup_append'.mpr ⟨hjobs.1, Finset.nodup_toList _, ?_⟩
    intro path hpath hother
    exact (hmem path).mp hpath (hrest path hother)
  · ext path
    rw [List.mem_toFinset, List.mem_append, hmem, Finset.mem_filter, Finset.mem_toList,
      Finset.mem_filter]
    constructor
    · rintro (hpath | ⟨hpath, hchange, -⟩)
      · rw [jobOf_eq, Ne, Option.map_eq_none_iff] at hpath
        have hchange := getFileChanges_ne_none hpath
        exact ⟨mem_pathsOf (ne_none_of_getFileChanges hchange), hchange⟩
      · exact ⟨hpath, hchange⟩
    · rintro ⟨hpath, hchange⟩
      by_cases hnone : jobOf changes (getFileAtRef files) path = none
      · exact .inr ⟨hpath, hchange, hnone⟩
      · exact .inl hnone
  · rw [List.filterMap_append, List.filterMap_eq_nil_iff.mpr hrest, List.append_nil,
      List.filterMap_map]
    exact (List.filterMap_congr hjob).trans List.filterMap_some

end Jobs

/-- **The same files, under their paths and under their keys.** -/
structure KeyedEnv.Pairs (env : KeyedEnv σ ι κ β δ) (files : FilesAt (List σ) β δ)
    (keyed : FilesAt ι β δ) : Prop where
  comesBack : ∀ path ∈ files, env.ComesBack path
  returns : ∀ key ∈ keyed, env.Returns key
  lookup : ∀ path, env.ComesBack path → keyed.lookup (env.localizePath path) = files.lookup path

namespace KeyedEnv.Pairs

variable {env : KeyedEnv σ ι κ β δ} {files : FilesAt (List σ) β δ} {keyed : FilesAt ι β δ}
  {path : List σ} {content : Option β}

/-! ## Commits -/

omit [DecidableEq δ] in
/-- A commit at a path is one under its key. -/
theorem commitEntry (hpairs : env.Pairs files keyed) (hback : env.ComesBack path) :
    env.Pairs (CommitCall.commitEntry env.toProjectEnv files (path, content))
      (CommitCall.commitEntry env.toProjectEnv keyed (env.localizePath path, content)) := by
  constructor
  case comesBack =>
    intro found hfound
    by_cases hsame : found = path
    · rw [hsame]
      exact hback
    · obtain ⟨entry, hentry⟩ := Finmap.mem_iff.mp hfound
      rw [CommitCall.lookup_commitEntry_other _ _ _ _ hsame] at hentry
      exact hpairs.comesBack found (Finmap.mem_of_lookup_eq_some hentry)
  case returns =>
    intro key hkey
    by_cases hsame : key = env.localizePath path
    · exact ⟨path, by rw [hsame]; exact hback, hsame.symm⟩
    · obtain ⟨entry, hentry⟩ := Finmap.mem_iff.mp hkey
      rw [CommitCall.lookup_commitEntry_other _ _ _ _ hsame] at hentry
      exact hpairs.returns key (Finmap.mem_of_lookup_eq_some hentry)
  case lookup =>
    intro found hfound
    by_cases hsame : found = path
    · rw [hsame, CommitCall.lookup_commitEntry_self _ files (path, content),
        CommitCall.lookup_commitEntry_self _ keyed (env.localizePath path, content)]
    · have hkey : env.localizePath found ≠ env.localizePath path :=
        fun hkey => hsame (hfound.inj hback hkey)
      rw [CommitCall.lookup_commitEntry_other _ files (path, content) found hsame,
        CommitCall.lookup_commitEntry_other _ keyed (env.localizePath path, content) _ hkey,
        hpairs.lookup found hfound]

omit [DecidableEq δ] in
theorem commitEntries (hpairs : env.Pairs files keyed) {contents : List (List σ × Option β)}
    (hback : ∀ entry ∈ contents, env.ComesBack entry.1) :
    env.Pairs (contents.foldl (CommitCall.commitEntry env.toProjectEnv) files)
      ((contents.map fun entry => (env.localizePath entry.1, entry.2)).foldl
        (CommitCall.commitEntry env.toProjectEnv) keyed) := by
  induction contents generalizing files keyed with
  | nil => exact hpairs
  | cons entry contents ih =>
      exact ih (hpairs.commitEntry (hback entry List.mem_cons_self))
        fun other hother => hback other (List.mem_cons_of_mem _ hother)

end KeyedEnv.Pairs

namespace CommitCall

variable [DecidableEq κ] (call : CommitCall σ ι κ β δ) {files : FilesAt (List σ) β δ}
  {keyed : FilesAt ι β δ} {order : List (List σ)}

/-- The surroundings of the loop that are those of a call. -/
def syncEnv : SyncEnv σ β δ := ⟨call.env.toProjectEnv, call.normalize⟩

/-- What the loop reads while nothing changes. -/
def pathContents (order : List (List σ)) : List (List σ × Option β) :=
  order.filterMap (call.syncEnv.readFile call.found [call.found] (fun _ => 0)
    fun path => call.readFails (.file path))

variable {call} (horder : call.order = order.map .file)

include horder

/-- What is read at paths is read under their keys. -/
theorem getFileContents_eq : call.getFileContents =
    (call.pathContents order).map fun entry => (call.env.localizePath entry.1, entry.2) := by
  rw [getFileContents, reads, horder]
  clear horder
  induction order with
  | nil => rfl
  | cons path order ih =>
      rw [pathContents, List.map_cons]
      cases hfails : call.readFails (.file path) with
      | true =>
          rw [List.filter_cons_of_neg (by simp [hfails]), ih,
            List.filterMap_cons_none (by rw [SyncEnv.readFile, if_pos hfails])]
          rfl
      | false =>
          rw [List.filter_cons_of_pos (by simp [hfails]), List.map_cons, ih,
            List.filterMap_cons_some (by rw [SyncEnv.readFile, hfails, if_neg Bool.false_ne_true])]
          rfl

variable (hback : ∀ path ∈ order, call.env.ComesBack path)

include hback

/-- **A commit pairs what it pairs before, up to the reconcile.** -/
theorem pairs_commitFsChanges (hpairs : call.env.Pairs files keyed)
    (hshadow : call.shadow = some keyed) :
    ∃ committed, call.commitFsChanges = some (call.merged.foldl mergeEntry committed) ∧
      call.env.Pairs ((call.pathContents order).foldl (commitEntry call.env.toProjectEnv) files)
        committed := by
  refine ⟨_, by rw [commitFsChanges, hshadow, Option.map_some], ?_⟩
  rw [getFileContents_eq horder]
  refine hpairs.commitEntries fun entry hentry => ?_
  obtain ⟨path, hpath, hread⟩ := List.mem_filterMap.mp hentry
  rw [fst_of_readFile hread]
  exact hback path hpath

/-- A file that is read is the only one under its key, which is the only one that leads to it. -/
theorem lastKey_eq {path : List σ} (hpath : path ∈ order)
    (hread : call.readFails (.file path) = false) :
    call.lastKey path = some (call.env.localizePath path) ∧
      call.lastRead (call.env.localizePath path) = some (.file path) := by
  have hplace : ∀ place ∈ call.order, ∃ found ∈ order, place = .file found := by
    intro place hmem
    rw [horder] at hmem
    obtain ⟨found, hfound, rfl⟩ := List.mem_map.mp hmem
    exact ⟨found, hfound, rfl⟩
  have hmem : DiskPath.file path ∈ call.order := by
    rw [horder]
    exact List.mem_map_of_mem hpath
  constructor
  · refine getLast?_filter_of_unique
      ((call.mem_keyOrder _).mpr ⟨.file path, hmem, hread, rfl⟩) fun key hkey => ?_
    obtain ⟨place, hplaceMem, -, rfl⟩ := (call.mem_keyOrder key).mp hkey
    obtain ⟨found, hfound, rfl⟩ := hplace place hplaceMem
    rw [decide_eq_true_eq]
    constructor
    · intro hleads
      rw [DiskPath.file.inj ((hback found hfound).symm.trans hleads)]
      rfl
    · intro hsame
      rw [hsame]
      exact hback path hpath
  · refine getLast?_filter_of_unique (List.mem_filter.mpr ⟨hmem, by simp [hread]⟩)
      fun place hplaceMem => ?_
    obtain ⟨found, hfound, rfl⟩ := hplace place (List.mem_filter.mp hplaceMem).1
    rw [decide_eq_true_eq]
    constructor
    · intro hsame
      rw [(hback found hfound).inj (hback path hpath) hsame]
    · intro hsame
      rw [hsame]
      rfl

theorem lastKey_eq_none {path : List σ}
    (hpath : path ∉ order ∨ call.readFails (.file path) = true) : call.lastKey path = none := by
  rw [lastKey, List.getLast?_eq_none_iff, List.filter_eq_nil_iff]
  intro key hkey hleads
  obtain ⟨place, hmem, hread, rfl⟩ := (call.mem_keyOrder key).mp hkey
  rw [horder] at hmem
  obtain ⟨found, hfound, rfl⟩ := List.mem_map.mp hmem
  obtain rfl : found = path :=
    DiskPath.file.inj ((hback found hfound).symm.trans (of_decide_eq_true hleads))
  rcases hpath with hpath | hfails
  · exact hpath hfound
  · rw [hread] at hfails
    nomatch hfails

/-- **The files that are noted are noted under their paths.** -/
theorem lookup_noted {skipped : HashMap (List σ) δ}
    (hskip : ∀ path, call.skipFiles.lookup (.file path) = skipped.lookup path) (path : List σ) :
    ((call.keyOrder.map call.statusOf).foldl noteStatus call.skipFiles).lookup (.file path) =
      (((call.pathContents order).map fun entry => (entry.1,
        (⟨call.env.getAllFiles call.scanned entry.1, entry.2.map call.env.toHash⟩ :
          CommitStatus δ))).foldl noteStatus skipped).lookup path := by
  have hnodup : order.Nodup := List.Nodup.of_map _ (horder ▸ call.nodup)
  have hpaths : (((call.pathContents order).map fun entry => (entry.1,
      (⟨call.env.getAllFiles call.scanned entry.1, entry.2.map call.env.toHash⟩ :
        CommitStatus δ))).map Prod.fst).Nodup := by
    rw [List.map_map]
    exact nodup_map_fst_filterMap (fun _ _ => fst_of_readFile) hnodup
  rw [lookup_foldl_noteStatus]
  by_cases hread : path ∈ order ∧ call.readFails (.file path) = false
  · obtain ⟨hpath, hread⟩ := hread
    obtain ⟨hkey, hlast⟩ := lastKey_eq horder hback hpath hread
    have hentry : (path, (call.found.files.lookup path).map call.normalize) ∈
        call.pathContents order := by
      refine List.mem_filterMap.mpr ⟨path, hpath, ?_⟩
      rw [SyncEnv.readFile, hread, if_neg Bool.false_ne_true]
      rfl
    have hnoted := (HashMap.lookup_foldl_of_local lookup_noteStatus_self lookup_noteStatus_other
      hpaths skipped).1 _ (List.mem_map_of_mem hentry)
    rw [hkey, Option.map_some, hlast, Option.getD_some]
    exact hnoted.symm
  · have hmissing : path ∉ order ∨ call.readFails (.file path) = true := by
      by_cases hpath : path ∈ order
      · exact .inr (Bool.not_eq_false _ |>.mp fun hfalse => hread ⟨hpath, hfalse⟩)
      · exact .inl hpath
    rw [lastKey_eq_none horder hback hmissing, Option.map_none, Option.getD_none, hskip]
    have hunread : path ∉ (call.pathContents order).map Prod.fst :=
      not_mem_map_fst_readFile hmissing
    refine ((HashMap.lookup_foldl_of_local lookup_noteStatus_self lookup_noteStatus_other hpaths
      skipped).2 path ?_).symm
    rw [List.map_map]
    exact hunread

end CommitCall

namespace KeyedEnv.Pairs

variable {env : KeyedEnv σ ι κ β δ} {files : FilesAt (List σ) β δ} {keyed : FilesAt ι β δ}
  {path : List σ}

/-! ## Indexes -/

variable [DecidableEq κ] (hpairs : env.Pairs files keyed)

include hpairs

omit [DecidableEq δ] in
/-- The hash under the key of a path is the one at the path. -/
theorem hashAt : env.hashAt keyed = env.toProjectEnv.getHashIndex files := by
  funext found
  by_cases hback : env.ComesBack found
  · rw [KeyedEnv.hashAt, if_pos hback, KeyedEnv.getHashIndex, ignoresKey,
      show env.globalizePath (env.localizePath found) = .file found from hback,
      hpairs.lookup found hback]
    rfl
  · rw [KeyedEnv.hashAt, if_neg hback, ProjectEnv.getHashIndex,
      Finmap.lookup_eq_none.mpr (mt (hpairs.comesBack found) hback), Option.bind_none, ite_self]

omit [DecidableEq δ] in
theorem contentAt : env.contentAt keyed = getFileAtRef files := by
  funext found
  by_cases hback : env.ComesBack found
  · rw [KeyedEnv.contentAt, if_pos hback, getFileAtRef, hpairs.lookup found hback]
    rfl
  · rw [KeyedEnv.contentAt, if_neg hback, getFileAtRef,
      Finmap.lookup_eq_none.mpr (mt (hpairs.comesBack found) hback), Option.bind_none]

omit [DecidableEq δ] [DecidableEq κ] in
theorem returns_of_index {key : ι} (hindex : env.getHashIndex keyed key ≠ none) :
    env.Returns key := by
  refine hpairs.returns key ?_
  by_contra hmissing
  rw [KeyedEnv.getHashIndex, Finmap.lookup_eq_none.mpr hmissing, Option.bind_none, ite_self]
    at hindex
  exact hindex rfl

omit [DecidableEq δ] in
/-- The index under the paths of its keys is the one at the paths. -/
theorem lookup_oldFiles {indexOrder : List (ι × δ)}
    (hindex : ListsEntries (env.getHashIndex keyed) indexOrder) {place : DiskPath σ κ} {hash : δ} :
    (env.oldFiles indexOrder).lookup place = some hash ↔
      ∃ found, place = .file found ∧ env.toProjectEnv.getHashIndex files found = some hash := by
  have hleads : ∀ entry ∈ indexOrder, env.Returns entry.1 := by
    intro entry hentry
    apply hpairs.returns_of_index
    rw [(hindex.2 entry.1 entry.2).mp hentry]
    exact Option.some_ne_none _
  rw [oldFiles, HashMap.lookup_collect_map hindex.1 fun first hfirst second hsecond =>
    PathKeys.Returns.inj (hleads first hfirst) (hleads second hsecond), ← hpairs.hashAt]
  constructor
  · rintro ⟨key, hentry, hplace⟩
    obtain ⟨found, hfound, rfl⟩ := hleads _ hentry
    refine ⟨found, hplace.symm.trans hfound, ?_⟩
    rw [KeyedEnv.hashAt, if_pos (show env.ComesBack found from hfound)]
    exact (hindex.2 _ _).mp hentry
  · rintro ⟨found, rfl, hhash⟩
    rw [KeyedEnv.hashAt] at hhash
    split at hhash
    · rename_i hback
      exact ⟨env.localizePath found, (hindex.2 _ _).mpr hhash, hback⟩
    · cases hhash

/-- What a commit compares at a path is what it compares under its key. -/
theorem commitDiff {indexOrder : List (ι × δ)}
    (hindex : ListsEntries (env.getHashIndex keyed) indexOrder) {scanned : FileTree σ β}
    {skipFiles : HashMap (DiskPath σ κ) δ} {skipped : HashMap (List σ) δ}
    (hskip : ∀ found, skipFiles.lookup (.file found) = skipped.lookup found) :
    env.commitDiff scanned indexOrder skipFiles (.file path) =
      commitChanges (env.toProjectEnv.getHashIndex files) (env.getAllFiles scanned) skipped
        path := by
  have hold : (env.oldFiles indexOrder).lookup (.file path) =
      env.toProjectEnv.getHashIndex files path := by
    ext hash
    rw [hpairs.lookup_oldFiles hindex]
    constructor
    · rintro ⟨found, hfound, hhash⟩
      rwa [DiskPath.file.inj hfound]
    · exact fun hhash => ⟨path, rfl, hhash⟩
  have hchange : getFileChanges (env.oldFiles indexOrder).lookup (env.scannedAt scanned)
      (.file path) = getFileChanges (env.toProjectEnv.getHashIndex files)
        (env.getAllFiles scanned) path := by
    rw [getFileChanges, getFileChanges, hold]
    rfl
  unfold KeyedEnv.commitDiff commitChanges
  dsimp only
  rw [hchange, hskip]
  rfl

/-- Nothing differs where no file of the project is. -/
theorem commitDiff_other {indexOrder : List (ι × δ)}
    (hindex : ListsEntries (env.getHashIndex keyed) indexOrder) {scanned : FileTree σ β}
    {skipFiles : HashMap (DiskPath σ κ) δ} {other : κ} :
    env.commitDiff scanned indexOrder skipFiles (.other other) = none := by
  have hold : (env.oldFiles indexOrder).lookup (.other other) = none := by
    rw [Option.eq_none_iff_forall_ne_some]
    intro hash hlookup
    obtain ⟨found, hfound, -⟩ := (hpairs.lookup_oldFiles hindex).mp hlookup
    nomatch hfound
  have hchange : getFileChanges (env.oldFiles indexOrder).lookup (env.scannedAt scanned)
      (.other other) = none := by
    rw [getFileChanges, hold]
    rfl
  unfold KeyedEnv.commitDiff
  dsimp only
  rw [hchange]
  split
  · exact ite_self none
  · rfl

/-! ## Steps of the loop -/

variable {γ : Type u₁} {χ : Type u₂} [DecidableEq β] [DecidableEq γ] [DecidableEq χ]
  {state : LoopState σ β δ γ χ} {scanOrder : List (List σ × δ)}

/-- **A checkout has the jobs that the loop proposes, in some order of the files.** -/
theorem exists_propose (normalize : β → β) {goal : HistoryRef γ χ}
    {checkedOut : Option (HistoryRef γ χ)} {changeOrder : List (ι × FileJob β)}
    {jobOrder : List (DiskPath σ κ × FileJob β)}
    (hphase : state.phase = .comparing goal checkedOut [state.disk])
    (hgoal : state.filesAt goal = some files)
    (hscan : ListsEntries (env.getAllFiles state.disk) scanOrder)
    (hback : ∀ path, env.getAllFiles state.disk path ≠ none → env.ComesBack path)
    (hchanges : ListsEntries (env.checkoutRef scanOrder keyed) changeOrder)
    (hjobs : ListsEntries (env.joined changeOrder).lookup jobOrder) :
    (∃ order, state.step ⟨env.toProjectEnv, normalize⟩
        (.propose (fun _ => 0) (fun _ => false) (fun _ => false) order) =
      some (state.startWaiting goal checkedOut (some (fileJobs jobOrder)))) ∧
    ∀ tree, env.runPathJobs jobOrder tree = env.runJobs (fileJobs jobOrder) tree := by
  obtain ⟨hlists, hfiles⟩ := listsEntries_fileJobs hscan hback
    (fun _ hindex => hpairs.returns_of_index hindex) hchanges hjobs
  rw [hpairs.hashAt, hpairs.contentAt] at hlists
  obtain ⟨order, horder, hmade⟩ := exists_order [state.disk] hlists
  refine ⟨⟨order, ?_⟩, runPathJobs_of_files hfiles⟩
  rw [← hmade]
  unfold LoopState.step
  rw [hphase]
  show state.propose _ _ _ _ _ _ _ _ = _
  rw [LoopState.propose, hgoal]
  exact if_pos horder

omit [DecidableEq κ] [DecidableEq β] [DecidableEq γ] [DecidableEq χ] in
/-- A pending normalization writes what the loop writes. -/
theorem normalizeFile (normalize : β → β) {entry : Entry (List σ) δ}
    (hback : env.ComesBack entry.1) :
    env.normalizeFile keyed state.disk (entry.1, entry.2) =
      ((state.toNormalize ⟨env.toProjectEnv, normalize⟩ (getFileAtRef files) entry).map
        fun found => env.handleFileUpdate found.1 found.2 state.disk).getD state.disk := by
  have hfile : getFileAtRef keyed (env.localizePath entry.1) = getFileAtRef files entry.1 := by
    rw [getFileAtRef, getFileAtRef, hpairs.lookup entry.1 hback]
  unfold KeyedEnv.normalizeFile LoopState.toNormalize
  dsimp only
  rw [hfile]
  split
  · rfl
  · split
    · cases getFileAtRef files entry.1 <;> rfl
    · rfl

end KeyedEnv.Pairs

namespace CommitCall

variable [DecidableEq κ] {call : CommitCall σ ι κ β δ} {files : FilesAt (List σ) β δ}
  {keyed : FilesAt ι β δ} {γ : Type u₁} {χ : Type u₂} [DecidableEq β] [DecidableEq γ]
  [DecidableEq χ] {state : LoopState σ β δ γ χ} {ref : HistoryRef γ χ}
  (hpairs : call.env.Pairs files keyed)
  (hskip : ∀ path,
    call.skipFiles.lookup (.file path) = state.pendingNormalizedFiles.lookup path)

include hpairs hskip

/-- **A commit reads the files that the loop finds to differ.** -/
theorem exists_finishScan (hscanned : state.disk = call.scanned)
    (hphase : state.phase = .scanning ref [state.disk]) (href : call.refFiles = some keyed)
    (hfiles : state.filesAt ref = some files) (hchanges : call.order ≠ []) :
    ∃ order, call.order = order.map .file ∧
      state.step call.syncEnv (.finishScan (fun _ => 0) (fun _ => false) order) =
        some { state with
          phase := .reading ref (call.env.getAllFiles call.scanned) order [state.disk] } := by
  have hindex := call.listsEntries keyed href
  have hfile : ∀ place ∈ call.order, place ∈ Set.range (DiskPath.file : List σ → DiskPath σ κ) := by
    intro place hplace
    have hdiff := (call.mem_order keyed href place).mp hplace
    cases place with
    | file path => exact ⟨path, rfl⟩
    | other path => exact absurd (hpairs.commitDiff_other hindex) hdiff
  obtain ⟨order, horder⟩ : call.order ∈ Set.range (List.map DiskPath.file) := by
    rw [Set.range_list_map]
    exact hfile
  have hinjective : Function.Injective (DiskPath.file : List σ → DiskPath σ κ) :=
    fun _ _ => DiskPath.file.inj
  have hchanged : ListsChanged (commitChanges (call.env.toProjectEnv.getHashIndex files)
      (call.env.getAllFiles state.disk) state.pendingNormalizedFiles)
      (pathsOf files state.disk [state.disk]) order := by
    refine ⟨List.Nodup.of_map _ (horder ▸ call.nodup), ?_⟩
    ext path
    rw [List.mem_toFinset, Finset.mem_filter, ← List.mem_map_of_injective hinjective, horder,
      call.mem_order keyed href, hpairs.commitDiff hindex hskip, hscanned]
    refine ⟨fun hdiff => ⟨?_, hdiff⟩, And.right⟩
    exact mem_pathsOf (ne_none_of_getFileChanges (getFileChanges_of_commitChanges hdiff)).symm
  have hsome : order ≠ [] := by
    rintro rfl
    exact hchanges horder.symm
  refine ⟨order, horder.symm, ?_⟩
  unfold LoopState.step
  rw [hphase]
  show state.finishScan _ _ _ _ _ _ = _
  rw [LoopState.finishScan, hfiles, Option.bind_some, ← hscanned]
  exact (if_pos hchanged).trans (if_neg hsome)

/-- **A commit stores and notes what the loop stores and notes, up to the reconcile.** -/
theorem exists_commit {heads newHeads : Finset χ} {order : List (List σ)}
    (hfound : state.disk = call.found)
    (hphase : state.phase = .reading ref (call.env.getAllFiles call.scanned) order [state.disk])
    (hheads : state.shadowHeads ref.branch = some heads)
    (hfiles : state.filesAt ⟨ref.branch, heads⟩ = some files)
    (hnew : state.filesAt ⟨ref.branch, newHeads⟩ = none) (hshadow : call.shadow = some keyed)
    (horder : call.order = order.map .file) (hback : ∀ path ∈ order, call.env.ComesBack path) :
    ∃ next stored committed,
      state.step call.syncEnv
        (.commit (fun _ => 0) (fun path => call.readFails (.file path)) newHeads) = some next ∧
      next.filesAt ⟨ref.branch, newHeads⟩ = some stored ∧
      call.commitFsChanges = some (call.merged.foldl mergeEntry committed) ∧
      call.env.Pairs stored committed ∧
      ∀ path, next.pendingNormalizedFiles.lookup path =
        ((call.keyOrder.map call.statusOf).foldl noteStatus call.skipFiles).lookup
          (.file path) := by
  obtain ⟨committed, hcommit, hstored⟩ := pairs_commitFsChanges horder hback hpairs hshadow
  let stored := (call.pathContents order).foldl (commitEntry call.env.toProjectEnv) files
  refine ⟨state.committed call.syncEnv ref.branch (call.env.getAllFiles call.scanned)
    (call.pathContents order) newHeads stored, stored, committed, ?_, ?_, hcommit, hstored,
    fun path => ?_⟩
  · unfold LoopState.step
    rw [hphase]
    show state.commit _ _ _ _ _ = _
    rw [LoopState.commit, hheads]
    dsimp only
    rw [hfiles, Option.bind_some, if_pos (.inl hnew), hfound]
    rfl
  · exact Function.update_self ..
  · exact (lookup_noted horder hback hskip path).symm

end CommitCall

end Backstitch
