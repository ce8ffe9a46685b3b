/-
# What the sync loop overwrites

Before it checks out anything, the loop commits what is on disk, so that nothing gets lost.  Users
edit files all the while.  The run is recorded: which files were edited since a commit last took
them up, and which ones since the current traversal began.  Everything else on disk is held by
some ref, and what the loop writes in its place is what some ref holds.
-/

import Backstitch.Project.LoopSteps

namespace Backstitch

universe u v w u₁ u₂

variable {σ : Type u} {β : Type v} {δ : Type w} {κ : Type u₁} {χ : Type u₂}
  [DecidableEq σ] [DecidableEq δ]

/-! ## What is kept -/

/-- An entry stands for a file with this hash: the hash is stored, or that of the content, or
that of a file whose normalized content this is. -/
def SyncEnv.Holds (env : SyncEnv σ β δ) (entry : FileEntry β δ) (hash : δ) : Prop :=
  env.entryHash entry = some hash ∨ entry.content.map env.toHash = some hash ∨
    ∃ content, env.toHash content = hash ∧ entry.content = some (env.normalize content)

namespace LoopState

/-- Some ref holds a file with this hash at the path. -/
def Keeps (env : SyncEnv σ β δ) (state : LoopState σ β δ κ χ) (path : List σ) (hash : δ) : Prop :=
  ∃ ref files entry, state.filesAt ref = some files ∧ files.lookup path = some entry ∧
    env.Holds entry hash

/-- Some ref has this content at the path. -/
def HasContent (state : LoopState σ β δ κ χ) (path : List σ) (content : β) : Prop :=
  ∃ ref files, state.filesAt ref = some files ∧ getFileAtRef files path = some content

/-- The next commit skips the file as it is: it waits to be normalized. -/
def Skips (env : SyncEnv σ β δ) (state : LoopState σ β δ κ χ) (path : List σ) : Prop :=
  state.pendingNormalizedFiles.lookup path ≠ none ∧
    state.pendingNormalizedFiles.lookup path = env.getAllFiles state.disk path

instance (env : SyncEnv σ β δ) (state : LoopState σ β δ κ χ) (path : List σ) :
    Decidable (state.Skips env path) :=
  inferInstanceAs (Decidable (_ ∧ _))

end LoopState

/-! ## The record -/

/-- What is noted of the edits. -/
structure EditRecord (σ : Type u) [DecidableEq σ] where
  /-- The files that were edited since a commit took them up. -/
  unsaved : Finset (List σ)
  /-- The files that were edited since the sync began. -/
  recent : Finset (List σ)

namespace EditRecord

/-- Nothing was taken up when the loop began. -/
def start (state : LoopState σ β δ κ χ) : EditRecord σ := ⟨state.disk.files.keys, ∅⟩

/-- A commit takes up the files that are not edited meanwhile, unless it skips them or fails to
read them. -/
def note [DecidableEq κ] [DecidableEq χ] (env : SyncEnv σ β δ) (record : EditRecord σ)
    (state : LoopState σ β δ κ χ) (action : LoopAction σ β δ κ χ) (_ : LoopState σ β δ κ χ) :
    EditRecord σ :=
  match action with
  | .edit path _ => ⟨insert path record.unsaved, insert path record.recent⟩
  | .sync => ⟨record.unsaved, ∅⟩
  | .finishScan _ _ [] =>
      ⟨record.unsaved.filter fun path => path ∈ record.recent ∨ state.Skips env path, record.recent⟩
  | .commit _ readFails _ =>
      match state.phase with
      | .reading ref _ order _ =>
          if state.shadowHeads ref.branch = none then record
          else ⟨record.unsaved.filter fun path => path ∈ record.recent ∨ state.Skips env path ∨
            path ∈ order ∧ readFails path = true, record.recent⟩
      | _ => record
  | _ => record

end EditRecord

/-! ## What holds meanwhile -/

section Invariant

variable {env : SyncEnv σ β δ} {state next : LoopState σ β δ κ χ} {record : EditRecord σ}
  {path : List σ} {hash : δ} {content : β}

omit [DecidableEq δ] in
theorem LoopState.Keeps.mono (hkeeps : state.Keeps env path hash)
    (hgrows : ∀ ref files, state.filesAt ref = some files → next.filesAt ref = some files) :
    next.Keeps env path hash := by
  obtain ⟨ref, files, entry, hfiles, hentry, hholds⟩ := hkeeps
  exact ⟨ref, files, entry, hgrows ref files hfiles, hentry, hholds⟩

omit [DecidableEq δ] in
theorem LoopState.HasContent.mono (hhas : state.HasContent path content)
    (hgrows : ∀ ref files, state.filesAt ref = some files → next.filesAt ref = some files) :
    next.HasContent path content := by
  obtain ⟨ref, files, hfiles, hcontent⟩ := hhas
  exact ⟨ref, files, hgrows ref files hfiles, hcontent⟩

omit [DecidableEq δ] in
theorem LoopState.HasContent.keeps (hhas : state.HasContent path content) (env : SyncEnv σ β δ) :
    state.Keeps env path (env.toHash content) := by
  obtain ⟨ref, files, hfiles, hcontent⟩ := hhas
  obtain ⟨entry, hentry, hcontent⟩ := Option.bind_eq_some_iff.mp hcontent
  exact ⟨ref, files, entry, hfiles, hentry, .inr (.inl (congrArg (Option.map env.toHash) hcontent))⟩

/-- Every file that a traversal meets was edited since it was last taken up, or is kept. -/
def Accounted (env : SyncEnv σ β δ) (state : LoopState σ β δ κ χ) (record : EditRecord σ) : Prop :=
  ∀ path content, env.Visible path → state.disk.files.lookup path = some content →
    path ∈ record.unsaved ∨ state.Keeps env path (env.toHash content)

/-- A traversal has only met changes of recent edits. -/
structure Watched (state : LoopState σ β δ κ χ) (record : EditRecord σ)
    (moments : List (FileTree σ β)) : Prop where
  unsaved : record.recent ⊆ record.unsaved
  same : ∀ path, path ∉ record.recent → ∀ moment ∈ moments,
    moment.files.lookup path = state.disk.files.lookup path

/-- What was scanned is as it was, up to recent edits, and what is not read is skipped or kept. -/
structure Scanned (env : SyncEnv σ β δ) (state : LoopState σ β δ κ χ) (record : EditRecord σ)
    (order : List (List σ)) : Prop where
  nodup : order.Nodup
  settled : ∀ path content, env.Visible path → path ∉ record.recent → path ∉ order →
    state.disk.files.lookup path = some content →
      state.Skips env path ∨ state.Keeps env path (env.toHash content)

/-- The jobs write what refs hold. -/
def FromRefs (state : LoopState σ β δ κ χ) (jobs : List (List σ × FileJob β)) : Prop :=
  ∀ path content, (path, .update content) ∈ jobs → state.HasContent path content

/-- What holds in a phase. -/
def PhaseHolds (env : SyncEnv σ β δ) (state : LoopState σ β δ κ χ) (record : EditRecord σ) :
    SyncStage σ β δ κ χ → Prop
  | .idle | .choosing | .comparing _ _ _ => True
  | .scanning _ moments => Watched state record moments
  | .reading _ _ order moments => Watched state record moments ∧ Scanned env state record order
  | .waiting _ _ changes => ∀ jobs, changes = some jobs → FromRefs state jobs
  | .normalizing _ changes contents _ found => (∀ jobs, changes = some jobs → FromRefs state jobs) ∧
      (∀ path content, contents path = some content → state.HasContent path content) ∧
      ∀ path content, found = some (path, content) → state.HasContent path content
  | .writing _ jobs => FromRefs state jobs

/-- What holds of every state with its record. -/
structure Sound (env : SyncEnv σ β δ) (state : LoopState σ β δ κ χ) (record : EditRecord σ) :
    Prop where
  accounted : Accounted env state record
  phase : PhaseHolds env state record state.phase

omit [DecidableEq δ] in
theorem FromRefs.mono {jobs : List (List σ × FileJob β)} (hjobs : FromRefs state jobs)
    (hgrows : ∀ ref files, state.filesAt ref = some files → next.filesAt ref = some files) :
    FromRefs next jobs := by
  intro path content hmem
  exact (hjobs path content hmem).mono hgrows

omit [DecidableEq δ] in
/-- Where neither the disk nor the edits change, everything stays accounted for. -/
theorem Accounted.frame {later : EditRecord σ} (haccounted : Accounted env state record)
    (hdisk : next.disk = state.disk) (hunsaved : record.unsaved ⊆ later.unsaved)
    (hgrows : ∀ ref files, state.filesAt ref = some files → next.filesAt ref = some files) :
    Accounted env next later := by
  intro path content hvisible hfound
  rw [hdisk] at hfound
  rcases haccounted path content hvisible hfound with hmem | hkeeps
  · exact .inl (hunsaved hmem)
  · exact .inr (hkeeps.mono hgrows)

omit [DecidableEq δ] in
/-- What holds in a phase goes on to hold while others do something else than edit. -/
theorem PhaseHolds.frame {phase : SyncStage σ β δ κ χ} (hphase : PhaseHolds env state record phase)
    (hdisk : next.disk = state.disk)
    (hpending : next.pendingNormalizedFiles = state.pendingNormalizedFiles)
    (hgrows : ∀ ref files, state.filesAt ref = some files → next.filesAt ref = some files) :
    PhaseHolds env next record phase := by
  have hwatched : ∀ moments, Watched state record moments → Watched next record moments := by
    intro moments hwatched
    refine ⟨hwatched.unsaved, fun path hrecent moment hmoment => ?_⟩
    rw [hdisk]
    exact hwatched.same path hrecent moment hmoment
  cases phase with
  | idle | choosing | comparing => trivial
  | scanning ref moments => exact hwatched moments hphase
  | reading ref scanned order moments =>
      refine ⟨hwatched moments hphase.1, hphase.2.nodup, ?_⟩
      intro path content hvisible hrecent hpath hfound
      rw [hdisk] at hfound
      rcases hphase.2.settled path content hvisible hrecent hpath hfound with hskips | hkeeps
      · refine .inl ?_
        rw [LoopState.Skips, hpending, hdisk]
        exact hskips
      · exact .inr (hkeeps.mono hgrows)
  | waiting goal checkedOut changes => exact fun jobs hjobs => (hphase jobs hjobs).mono hgrows
  | normalizing goal changes contents todo found =>
      obtain ⟨hchanges, hcontents, hfound⟩ := hphase
      exact ⟨fun jobs hjobs => (hchanges jobs hjobs).mono hgrows,
        fun path content hcontent => (hcontents path content hcontent).mono hgrows,
        fun path content hcontent => (hfound path content hcontent).mono hgrows⟩
  | writing goal jobs => exact FromRefs.mono hphase hgrows

/-- Where nothing is to be committed, the file is as the ref has it, or skipped. -/
theorem kept_of_commitChanges {ref : HistoryRef κ χ} {files : FilesAt (List σ) β δ}
    {missing : List σ → Bool} {scanned : List σ → Option δ}
    {skipFiles : HashMap (List σ) δ} (hfiles : state.filesAt ref = some files)
    (hscanned : scanned path = some hash)
    (hnothing : commitChanges (env.getHashIndexWithout files missing) scanned skipFiles path =
      none) : skipFiles.lookup path = some hash ∨ state.Keeps env path hash := by
  have hkept : getFileChanges (env.getHashIndexWithout files missing) scanned path = none →
      state.Keeps env path hash := by
    intro hsame
    unfold getFileChanges at hsame
    rw [hscanned] at hsame
    cases hindex : env.getHashIndexWithout files missing path with
    | none =>
        rw [hindex] at hsame
        cases hsame
    | some stored =>
        rw [hindex] at hsame
        have heq : stored = hash := by
          by_contra hne
          dsimp only at hsame
          rw [if_pos hne] at hsame
          cases hsame
        subst heq
        have hindex := getHashIndexWithout_le hindex
        unfold ProjectEnv.getHashIndex at hindex
        split at hindex
        · cases hindex
        · obtain ⟨entry, hentry, hhash⟩ := Option.bind_eq_some_iff.mp hindex
          exact ⟨ref, files, entry, hfiles, hentry, .inl hhash⟩
  unfold commitChanges at hnothing
  rw [hscanned] at hnothing
  cases hskip : skipFiles.lookup path with
  | none =>
      rw [hskip] at hnothing
      exact .inr (hkept hnothing)
  | some skipHash =>
      rw [hskip] at hnothing
      by_cases heq : skipHash = hash
      · exact .inl (congrArg some heq)
      · dsimp only at hnothing
        rw [if_pos heq] at hnothing
        exact .inr (hkept hnothing)

/-- What a traversal leaves out was edited meanwhile, is skipped, or is kept. -/
theorem Watched.settled {ref : HistoryRef κ χ} {files : FilesAt (List σ) β δ}
    {moments : List (FileTree σ β)} {pick : List σ → ℕ} {missing : List σ → Bool}
    {order : List (List σ)} (hwatched : Watched state record moments)
    (hfiles : state.filesAt ref = some files)
    (horder : ListsChanged (commitChanges (env.getHashIndexWithout files missing)
      (env.scan state.disk moments pick) state.pendingNormalizedFiles)
      (pathsOf files state.disk moments) order) : Scanned env state record order := by
  refine ⟨horder.1, fun path content hvisible hrecent hpath hfound => ?_⟩
  have hscanned : env.scan state.disk moments pick path = some (env.toHash content) := by
    rw [scan_eq_getAllFiles (hwatched.same path hrecent),
      ProjectEnv.getAllFiles_of_visible hvisible, hfound, Option.map_some]
  have hnothing : commitChanges (env.getHashIndexWithout files missing)
      (env.scan state.disk moments pick) state.pendingNormalizedFiles path = none := by
    by_contra hchanges
    refine hpath (List.mem_toFinset.mp ?_)
    rw [horder.2, Finset.mem_filter]
    exact ⟨mem_pathsOf_disk (Finmap.mem_of_lookup_eq_some hfound), hchanges⟩
  rcases kept_of_commitChanges hfiles hscanned hnothing with hskip | hkeeps
  · refine .inl ⟨by rw [hskip]; exact Option.some_ne_none _, ?_⟩
    rw [hskip, ProjectEnv.getAllFiles_of_visible hvisible, hfound, Option.map_some]
  · exact .inr hkeeps

omit [DecidableEq δ] in
/-- A traversal that goes on while a file is edited meets the edit. -/
theorem PhaseHolds.watch {phase : SyncStage σ β δ κ χ} {path : List σ}
    (hphase : PhaseHolds env state record phase)
    (hother : ∀ other, other ≠ path →
      next.disk.files.lookup other = state.disk.files.lookup other)
    (hpending : next.pendingNormalizedFiles = state.pendingNormalizedFiles)
    (hfiles : next.filesAt = state.filesAt) :
    PhaseHolds env next ⟨insert path record.unsaved, insert path record.recent⟩
      (phase.watch next.disk) := by
  have hgrows : ∀ ref files, state.filesAt ref = some files → next.filesAt ref = some files :=
    fun ref files hfound => (congrFun hfiles ref).trans hfound
  have hwatched : ∀ moments, Watched state record moments → Watched next
      ⟨insert path record.unsaved, insert path record.recent⟩ (moments ++ [next.disk]) := by
    intro moments hwatched
    refine ⟨Finset.insert_subset_insert path hwatched.unsaved, ?_⟩
    intro other hrecent moment hmoment
    obtain ⟨hne, hrecent⟩ := not_or.mp (mt Finset.mem_insert.mpr hrecent)
    rcases List.mem_append.mp hmoment with hmoment | hlast
    · exact (hwatched.same other hrecent moment hmoment).trans (hother other hne).symm
    · rw [List.mem_singleton.mp hlast]
  cases phase with
  | idle | choosing | comparing => trivial
  | scanning ref moments => exact hwatched moments hphase
  | reading ref scanned order moments =>
      refine ⟨hwatched moments hphase.1, hphase.2.nodup, ?_⟩
      intro other content hvisible hrecent hread hfound
      obtain ⟨hne, hrecent⟩ := not_or.mp (mt Finset.mem_insert.mpr hrecent)
      have hsame : env.getAllFiles next.disk other = env.getAllFiles state.disk other := by
        rw [ProjectEnv.getAllFiles, ProjectEnv.getAllFiles, hother other hne]
      rcases hphase.2.settled other content hvisible hrecent hread
        ((hother other hne).symm.trans hfound) with hskips | hkeeps
      · refine .inl ?_
        rw [LoopState.Skips, hpending, hsame]
        exact hskips
      · exact .inr (hkeeps.mono hgrows)
  | waiting goal checkedOut changes => exact fun jobs hjobs => (hphase jobs hjobs).mono hgrows
  | normalizing goal changes contents todo found =>
      obtain ⟨hchanges, hcontents, hfound⟩ := hphase
      exact ⟨fun jobs hjobs => (hchanges jobs hjobs).mono hgrows,
        fun path content hcontent => (hcontents path content hcontent).mono hgrows,
        fun path content hcontent => (hfound path content hcontent).mono hgrows⟩
  | writing goal jobs => exact FromRefs.mono hphase hgrows

omit [DecidableEq δ] in
/-- What the traversal left out is taken up, or was edited since. -/
theorem Accounted.takeUp {order : List (List σ)} (haccounted : Accounted env state record)
    (hscanned : Scanned env state record order) (hdisk : next.disk = state.disk)
    (hgrows : ∀ ref files, state.filesAt ref = some files → next.filesAt ref = some files)
    {left : List σ → Prop} [DecidablePred left]
    (hleft : ∀ path, path ∈ record.recent ∨ state.Skips env path → left path)
    (hread : ∀ path content, env.Visible path → path ∈ order → ¬ left path →
      state.disk.files.lookup path = some content → next.Keeps env path (env.toHash content)) :
    Accounted env next ⟨record.unsaved.filter left, record.recent⟩ := by
  intro path content hvisible hfound
  rw [hdisk] at hfound
  rcases haccounted path content hvisible hfound with hunsaved | hkeeps
  · by_cases hpath : left path
    · exact .inl (Finset.mem_filter.mpr ⟨hunsaved, hpath⟩)
    · obtain ⟨hrecent, hskips⟩ := not_or.mp (mt (hleft path) hpath)
      by_cases horder : path ∈ order
      · exact .inr (hread path content hvisible horder hpath hfound)
      · rcases hscanned.settled path content hvisible hrecent horder hfound with hskip | hkeeps
        · exact absurd hskip hskips
        · exact .inr (hkeeps.mono hgrows)
  · exact .inr (hkeeps.mono hgrows)

omit [DecidableEq δ] in
/-- A file that a ref holds takes the place of another. -/
theorem Accounted.replace {path : List σ} (haccounted : Accounted env state record)
    (hfiles : next.filesAt = state.filesAt)
    (hother : ∀ other, other ≠ path →
      next.disk.files.lookup other = state.disk.files.lookup other)
    (hself : ∀ content, next.disk.files.lookup path = some content →
      state.disk.files.lookup path = some content ∨ state.HasContent path content) :
    Accounted env next record := by
  have hgrows : ∀ ref files, state.filesAt ref = some files → next.filesAt ref = some files :=
    fun ref files hfound => (congrFun hfiles ref).trans hfound
  intro other content hvisible hfound
  by_cases hpath : other = path
  · subst hpath
    rcases hself content hfound with hkept | hhas
    · exact (haccounted other content hvisible hkept).imp_right fun hkeeps => hkeeps.mono hgrows
    · exact .inr ((hhas.keeps env).mono hgrows)
  · rw [hother other hpath] at hfound
    exact (haccounted other content hvisible hfound).imp_right fun hkeeps => hkeeps.mono hgrows

omit [DecidableEq δ] in
/-- Waiting begins with jobs that write what refs hold. -/
theorem PhaseHolds.startWaiting {goal : HistoryRef κ χ} {checkedOut : Option (HistoryRef κ χ)}
    {changes : Option (List (List σ × FileJob β))} [DecidableEq δ]
    (hchanges : ∀ jobs, changes = some jobs → FromRefs state jobs) :
    PhaseHolds env (state.startWaiting goal checkedOut changes) record
      (state.startWaiting goal checkedOut changes).phase := by
  have hcases : (state.startWaiting goal checkedOut changes).phase = .idle ∨
      (state.startWaiting goal checkedOut changes).phase = .waiting goal checkedOut changes :=
    LoopState.startWaiting_phase
  rcases hcases with hphase | hphase
  · rw [hphase]
    trivial
  · rw [hphase]
    exact hchanges

omit [DecidableEq δ] in
theorem PhaseHolds.startWriting {goal : HistoryRef κ χ}
    {changes : Option (List (List σ × FileJob β))}
    (hchanges : ∀ jobs, changes = some jobs → FromRefs state jobs) :
    PhaseHolds env (state.startWriting goal changes) record
      (state.startWriting goal changes).phase := by
  have hcases : (state.startWriting goal changes).phase = .idle ∨ ∃ jobs, changes = some jobs ∧
      (state.startWriting goal changes).phase = .writing goal jobs :=
    LoopState.startWriting_phase
  rcases hcases with hphase | ⟨jobs, hjobs, hphase⟩
  · rw [hphase]
    trivial
  · rw [hphase]
    exact hchanges jobs hjobs

end Invariant

section Run

variable [DecidableEq β] [DecidableEq κ] [DecidableEq χ] {env : SyncEnv σ β δ}
  {state next : LoopState σ β δ κ χ} {record : EditRecord σ} {action : LoopAction σ β δ κ χ}

omit [DecidableEq δ] [DecidableEq β] [DecidableEq κ] [DecidableEq χ] in
/-- What a commit reads of a file that was not edited meanwhile is kept. -/
theorem keeps_of_committed {ref : HistoryRef κ χ} {newHeads : Finset χ}
    {files : FilesAt (List σ) β δ} {moments : List (FileTree σ β)} {order : List (List σ)} {pick : List σ → ℕ}
    {readFails : List σ → Bool} {path : List σ} {content : β} (hnodup : order.Nodup)
    (hpath : path ∈ order) (hreads : readFails path = false)
    (hsame : ∀ moment ∈ moments, moment.files.lookup path = state.disk.files.lookup path)
    (hfound : state.disk.files.lookup path = some content)
    (hstored : next.filesAt ⟨ref.branch, newHeads⟩ =
      some ((order.filterMap (env.readFile state.disk moments pick readFails)).foldl
        (CommitCall.commitEntry env.toProjectEnv) files)) :
    next.Keeps env path (env.toHash content) := by
  refine ⟨_, _, ⟨[env.toHash (env.normalize content)], some (env.normalize content)⟩, hstored, ?_,
    .inr (.inr ⟨content, rfl, rfl⟩)⟩
  rw [lookup_foldl_commitEntry hnodup hpath hreads hsame, hfound]
  rfl

omit [DecidableEq δ] [DecidableEq β] [DecidableEq κ] [DecidableEq χ] in
/-- The jobs that are proposed write what the goal holds. -/
theorem fromRefs_of_jobOf {goal : HistoryRef κ χ} {files : FilesAt (List σ) β δ}
    {changes : List σ → Option ChangeType} {missing : List σ → Bool} {order : List (List σ)}
    (hfiles : state.filesAt goal = some files) :
    FromRefs state (order.filterMap (jobOf changes (getFileWithout files missing))) := by
  intro path content hmem
  obtain ⟨other, -, hjob⟩ := List.mem_filterMap.mp hmem
  have hcontent : getFileWithout files missing path = some content := by
    unfold jobOf at hjob
    split at hjob
    · obtain ⟨found, hfound, hjob⟩ := Option.map_eq_some_iff.mp hjob
      cases hjob
      exact hfound
    · obtain ⟨found, hfound, hjob⟩ := Option.map_eq_some_iff.mp hjob
      cases hjob
      exact hfound
    · cases hjob
    · cases hjob
  exact ⟨goal, files, hfiles, getFileWithout_le hcontent⟩

omit [DecidableEq β] in
/-- **Every step keeps it, with its note.** -/
theorem Sound.step (hsound : Sound env state record) (hstep : LoopStep env state action next) :
    Sound env next (record.note env state action next) := by
  have hgrows : ∀ ref files, state.filesAt ref = some files → next.filesAt ref = some files :=
    fun _ _ => filesAt_of_loopStep hstep
  have hphase := hsound.phase
  cases hstep with
  | @edit path disk hother =>
      constructor
      · intro other content hvisible hfound
        by_cases hpath : other = path
        · exact .inl (hpath ▸ Finset.mem_insert_self other _)
        · refine (hsound.accounted other content hvisible ?_).imp_left Finset.mem_insert_of_mem
          exact (hother other hpath).symm.trans hfound
      · exact hphase.watch hother rfl rfl
  | deliver | setSafe | merge | dropShadow =>
      exact ⟨hsound.accounted.frame rfl subset_rfl hgrows, hphase.frame rfl rfl hgrows⟩
  | startScan =>
      refine ⟨hsound.accounted.frame rfl subset_rfl hgrows, Finset.empty_subset _, ?_⟩
      intro path _ moment hmoment
      rw [List.mem_singleton.mp hmoment]
  | startChoosing | failIndex | chooseUnsafe | chooseOther | noGoal | passRefused =>
      exact ⟨hsound.accounted.frame rfl subset_rfl hgrows, trivial⟩
  | findNothing hcase hfiles horder =>
      rw [hcase] at hphase
      refine ⟨hsound.accounted.takeUp (hphase.settled hfiles horder) rfl hgrows
        (fun _ hleft => hleft) ?_, trivial⟩
      intro path content _ hpath
      cases hpath
  | @findChanges ref moments files pick missing order hcase hfiles horder hchanges =>
      rw [hcase] at hphase
      cases order with
      | nil => exact absurd rfl hchanges
      | cons first rest =>
          obtain ⟨hnodup, hsettled⟩ := hphase.settled hfiles horder
          refine ⟨hsound.accounted.frame rfl subset_rfl hgrows, ⟨hphase.unsaved, ?_⟩,
            hnodup, hsettled⟩
          intro path _ moment hmoment
          rw [List.mem_singleton.mp hmoment]
  | commitNowhere hcase hshadow =>
      unfold EditRecord.note
      rw [hcase]
      dsimp only
      rw [if_pos hshadow]
      exact ⟨hsound.accounted.frame rfl subset_rfl hgrows, trivial⟩
  | @commit ref scanned order moments pick readFails heads newHeads files stored contents hcase
      hshadow hfiles hcontents hstored hheads =>
      rw [hcase] at hphase
      obtain ⟨hwatched, hscanned⟩ := hphase
      unfold EditRecord.note
      rw [hcase]
      dsimp only
      rw [if_neg (by rw [hshadow]; exact Option.some_ne_none heads)]
      have hdisk : (state.committed env ref.branch scanned contents newHeads stored).disk =
          state.disk := rfl
      refine ⟨hsound.accounted.takeUp hscanned hdisk hgrows ?_ ?_, trivial⟩
      · intro path hleft
        exact hleft.imp_right .inl
      · intro path content _ hpath hleft hfound
        obtain ⟨hrecent, hleft⟩ := not_or.mp hleft
        have hreads : readFails path = false :=
          Bool.eq_false_iff.mpr fun hfails => hleft (.inr ⟨hpath, hfails⟩)
        have hcommitted : (state.committed env ref.branch scanned contents newHeads stored).filesAt
            ⟨ref.branch, newHeads⟩ = some ((order.filterMap
              (env.readFile state.disk moments pick readFails)).foldl
                (CommitCall.commitEntry env.toProjectEnv) files) := by
          rw [← hcontents, ← hstored]
          exact Function.update_self _ _ _
        exact keeps_of_committed hscanned.nodup hpath hreads (hwatched.same path hrecent) hfound
          hcommitted
  | chooseSame | failGoal =>
      refine ⟨hsound.accounted.frame rfl subset_rfl hgrows, PhaseHolds.startWaiting ?_⟩
      intro jobs hjobs
      cases hjobs
  | propose hcase hfiles =>
      refine ⟨hsound.accounted.frame rfl subset_rfl hgrows, PhaseHolds.startWaiting ?_⟩
      intro jobs hjobs
      obtain rfl := Option.some.inj hjobs
      exact fromRefs_of_jobOf hfiles
  | @passNormalizing goal ref changes missing order files hcase _ _ hfiles =>
      rw [hcase] at hphase
      refine ⟨hsound.accounted.frame rfl subset_rfl hgrows, hphase, ?_, ?_⟩
      · intro path content hcontent
        exact ⟨ref, files, hfiles, getFileWithout_le hcontent⟩
      · intro path content hfound
        cases hfound
  | passWriting hcase =>
      rw [hcase] at hphase
      exact ⟨hsound.accounted.frame rfl subset_rfl hgrows, PhaseHolds.startWriting hphase⟩
  | @compareHash goal changes contents entry todo hcase =>
      rw [hcase] at hphase
      refine ⟨hsound.accounted.frame rfl subset_rfl hgrows, hphase.1, hphase.2.1, ?_⟩
      intro path content hfound
      unfold LoopState.toNormalize at hfound
      split at hfound
      · cases hfound
      · split at hfound
        · obtain ⟨found, hcontent, heq⟩ := Option.map_eq_some_iff.mp hfound
          cases heq
          exact hphase.2.1 _ _ hcontent
        · cases hfound
  | @writeNormalized goal changes contents todo path content hcase =>
      rw [hcase] at hphase
      refine ⟨hsound.accounted.replace rfl (fun _ => ProjectEnv.lookup_handleFileUpdate_of_ne) ?_,
        hphase.1, hphase.2.1, ?_⟩
      · intro found hfound
        rcases ProjectEnv.lookup_handleFileUpdate_self hfound with hkept | heq
        · exact .inl hkept
        · exact .inr (heq ▸ hphase.2.2 path content rfl)
      · intro other found hfound
        cases hfound
  | endNormalizing hcase =>
      rw [hcase] at hphase
      exact ⟨hsound.accounted.frame rfl subset_rfl hgrows, PhaseHolds.startWriting hphase.1⟩
  | @runJob goal job jobs hcase =>
      rw [hcase] at hphase
      refine ⟨hsound.accounted.replace rfl (fun _ => ProjectEnv.lookup_runJob_of_ne) ?_, ?_⟩
      · intro found hfound
        rcases ProjectEnv.lookup_runJob hfound with hkept | hjob
        · exact .inl hkept
        · exact .inr (hphase _ _ (hjob ▸ List.mem_cons_self))
      · exact fun path content hmem => hphase path content (List.mem_cons_of_mem _ hmem)
  | finish => exact ⟨hsound.accounted.frame rfl subset_rfl hgrows, trivial⟩

omit [DecidableEq β] in
/-- What the loop puts in a file is what some ref has there. -/
theorem Sound.hasContent (hsound : Sound env state record)
    (hstep : LoopStep env state action next) (hnotEdit : ∀ path disk, action ≠ .edit path disk)
    {path : List σ} {content : β} (hfound : next.disk.files.lookup path = some content)
    (hnew : state.disk.files.lookup path ≠ some content) : state.HasContent path content := by
  have hphase := hsound.phase
  cases hstep with
  | edit => exact absurd rfl (hnotEdit _ _)
  | @writeNormalized goal changes contents todo other found hcase =>
      rw [hcase] at hphase
      by_cases hpath : path = other
      · subst hpath
        rcases ProjectEnv.lookup_handleFileUpdate_self hfound with hkept | rfl
        · exact absurd hkept hnew
        · exact hphase.2.2 _ _ rfl
      · rw [ProjectEnv.lookup_handleFileUpdate_of_ne hpath] at hfound
        exact absurd hfound hnew
  | runJob hcase =>
      rw [hcase] at hphase
      rcases ProjectEnv.lookup_runJob hfound with hkept | hjob
      · exact absurd hkept hnew
      · exact hphase _ _ (hjob ▸ List.mem_cons_self)
  | _ => exact absurd hfound hnew

/-- The loop with the record of its edits. -/
def recordedLoop (env : SyncEnv σ β δ) :
    System (LoopState σ β δ κ χ × EditRecord σ) (LoopAction σ β δ κ χ) :=
  (loopSystem env).recording EditRecord.start (EditRecord.note env)

/-- Every reachable state with its record. -/
theorem sound_of_reachable {pair : LoopState σ β δ κ χ × EditRecord σ}
    (hreach : (recordedLoop env).Reachable (fun _ _ => True) pair) : Sound env pair.1 pair.2 := by
  refine hreach.invariant_record ?_ ?_
  · intro state hstart
    refine ⟨fun path content _ hfound => .inl ?_, ?_⟩
    · exact Finmap.mem_keys.mpr (Finmap.mem_of_lookup_eq_some hfound)
    · rw [show state.phase = .idle from hstart]
      trivial
  · exact fun _ _ _ _ hsound _ hstep => hsound.step (loopStep_of_step hstep)

/-- **The loop overwrites only what a ref keeps, and only with what a ref has**: in every run,
however edits, events, changes of others and the steps of the loop come in between one another,
whatever a step other than an edit takes away was kept by some ref, up to normalization, unless the
file was edited since a commit last took it up. -/
theorem keeps_or_unsaved_of_replaced {pair next : LoopState σ β δ κ χ × EditRecord σ}
    (hreach : (recordedLoop env).Reachable (fun _ _ => True) pair)
    (hstep : (recordedLoop env).step pair action = some next)
    (hnotEdit : ∀ path disk, action ≠ .edit path disk) (path : List σ) :
    (∀ content, env.Visible path → pair.1.disk.files.lookup path = some content →
        next.1.disk.files.lookup path ≠ some content →
          path ∈ pair.2.unsaved ∨ pair.1.Keeps env path (env.toHash content)) ∧
      ∀ content, next.1.disk.files.lookup path = some content →
        pair.1.disk.files.lookup path ≠ some content → pair.1.HasContent path content := by
  have hsound := sound_of_reachable hreach
  have hloop := loopStep_of_step (System.recording_step_eq_some_iff.mp hstep).1
  constructor
  · intro content hvisible hfound _
    exact hsound.accounted path content hvisible hfound
  · intro content hfound hnew
    exact hsound.hasContent hloop hnotEdit hfound hnew

end Run

/-- A project whose branch is ahead of the disk, with an event that changed nothing. -/
def behindLoop : LoopState String String String Unit ℕ where
  disk := oneFile "old"
  pendingChanges := [["a"]]
  filesAt ref := some
    (if ref.heads = {1} then oneFileAt "new" (some "new") else oneFileAt "old" (some "old"))
  shadowHeads _ := some {1}
  checkedOutRef := some ⟨(), {0}⟩
  pendingNormalizedFiles := ∅
  safeToUpdateEditor := true
  phase := .idle

/-- Nothing is normalized. -/
def plainSyncEnv : SyncEnv String String String := { plainEnv with normalize := id }

/-- An iteration up to its writes. -/
def catchUp : List (LoopAction String String String Unit ℕ) :=
  [.sync, .finishScan (fun _ => 0) (fun _ => false) [], .choose (),
    .propose (fun _ => 0) (fun _ => false) (fun _ => false) [["a"]], .pass (fun _ => false) none]

/-- **The checkout writes the new file, and the old one is kept.** -/
theorem keeps_old_of_catchUp :
    let pair := (recordedLoop plainSyncEnv).after (behindLoop, EditRecord.start behindLoop) catchUp
    pair.1.Keeps plainSyncEnv ["a"] "old" ∧ pair.1.HasContent ["a"] "new" := by
  intro pair
  have hreach : (recordedLoop plainSyncEnv).Reachable (fun _ _ => True) pair :=
    System.Reachable.after (.start ⟨rfl, rfl⟩) (System.runsWithin_true _ _)
  have htakes : ((recordedLoop plainSyncEnv).step pair .runJob).isSome := by decide
  obtain ⟨hkept, hput⟩ := keeps_or_unsaved_of_replaced hreach (System.step_eq_some_after htakes)
    (by intro path disk hedit; cases hedit) ["a"]
  have hsaved : ["a"] ∉ pair.2.unsaved := by decide
  exact ⟨(hkept "old" (by decide) (by decide) (by decide)).resolve_left hsaved,
    hput "new" (by decide) (by decide)⟩

end Backstitch
