/-
# Changes of others that are undone

A commit is compared with the checked-out ref and goes to the shadow document as it is by then.
If others have changed a file there in the meantime, the checked-out ref takes their change in
without it ever getting to the disk.  From then on the old file on disk counts as a change.
-/

import Backstitch.Project.KeptContents

namespace Backstitch

universe u v w u₁ u₂

variable {σ : Type u} {β : Type v} {δ : Type w} {κ : Type u₁} {χ : Type u₂}
  [DecidableEq σ] [DecidableEq δ]

/-- Nobody edits the file or changes the branch, no other branch is requested, the index has the
file, and no commit reads it. -/
def LeavesBehind (path : List σ) (branch : κ) (_ : LoopState σ β δ κ χ) :
    LoopAction σ β δ κ χ → Prop
  | .edit other _ => other ≠ path
  | .merge other _ _ => other ≠ branch
  | .dropShadow other => other ≠ branch
  | .choose other => other = branch
  | .finishScan _ missing _ => missing path = false
  | .commit _ readFails _ => readFails path = true
  | _ => True

/-- The phases of a loop that takes the branch as checked out. -/
def PhaseBehind (path : List σ) (disk : FileTree σ β) (ref : HistoryRef κ χ) :
    SyncStage σ β δ κ χ → Prop
  | .idle | .choosing => True
  | .scanning scanned moments => scanned = ref ∧
      ∀ moment ∈ moments, moment.files.lookup path = disk.files.lookup path
  | .reading scanned _ order moments => scanned = ref ∧ order.Nodup ∧ path ∈ order ∧
      ∀ moment ∈ moments, moment.files.lookup path = disk.files.lookup path
  | .waiting _ _ changes => changes = none
  | .normalizing _ changes _ todo found => changes = none ∧ (∀ entry ∈ todo, entry.1 ≠ path) ∧
      ∀ content, found ≠ some (path, content)
  | .comparing _ _ _ | .writing _ _ => False

/-- The checked-out ref is the latest of its branch and has another file than the disk, which
counts as if a user had put it there. -/
structure Behind (env : SyncEnv σ β δ) (path : List σ) (branch : κ) (content : Option β)
    (state : LoopState σ β δ κ χ) : Prop where
  disk : state.disk.files.lookup path = content
  ahead : ∃ heads files, state.checkedOutRef = some ⟨branch, heads⟩ ∧
    state.shadowHeads branch = some heads ∧ state.filesAt ⟨branch, heads⟩ = some files ∧
    env.getHashIndex files path ≠ env.getAllFiles state.disk path ∧
    PhaseBehind path state.disk ⟨branch, heads⟩ state.phase
  pending : state.pendingNormalizedFiles.lookup path = none

section Steps

variable {env : SyncEnv σ β δ} {path : List σ} {branch : κ} {content : Option β}
  {state next : LoopState σ β δ κ χ}

omit [DecidableEq δ] in
/-- What no step at the file changes. -/
theorem Behind.frame (hbehind : Behind env path branch content state)
    (hdisk : next.disk.files.lookup path = state.disk.files.lookup path)
    (href : next.checkedOutRef = state.checkedOutRef)
    (hshadow : next.shadowHeads branch = state.shadowHeads branch)
    (hgrows : ∀ ref files, state.filesAt ref = some files → next.filesAt ref = some files)
    (hpending : next.pendingNormalizedFiles.lookup path = none)
    (hphase : ∀ heads files, state.checkedOutRef = some ⟨branch, heads⟩ →
      state.filesAt ⟨branch, heads⟩ = some files →
      env.getHashIndex files path ≠ env.getAllFiles state.disk path →
      PhaseBehind path state.disk ⟨branch, heads⟩ state.phase →
        PhaseBehind path next.disk ⟨branch, heads⟩ next.phase) :
    Behind env path branch content next := by
  obtain ⟨heads, files, hcheckedOut, hheads, hfiles, hdiffers, hwas⟩ := hbehind.ahead
  refine ⟨hdisk.trans hbehind.disk, ⟨heads, files, href.trans hcheckedOut, hshadow.trans hheads,
    hgrows _ _ hfiles, ?_, hphase heads files hcheckedOut hfiles hdiffers hwas⟩, hpending⟩
  rw [ProjectEnv.getAllFiles, hdisk]
  exact hdiffers

omit [DecidableEq δ] in
/-- A traversal that goes on while another file is edited meets this one as it was. -/
theorem PhaseBehind.watch {phase : SyncStage σ β δ κ χ} {ref : HistoryRef κ χ}
    {disk later : FileTree σ β} (hphase : PhaseBehind path disk ref phase)
    (hdisk : later.files.lookup path = disk.files.lookup path) :
    PhaseBehind path later ref (phase.watch later) := by
  have hmoments : ∀ moments : List (FileTree σ β),
      (∀ moment ∈ moments, moment.files.lookup path = disk.files.lookup path) →
      ∀ moment ∈ moments ++ [later], moment.files.lookup path = later.files.lookup path := by
    intro moments hsame moment hmoment
    rcases List.mem_append.mp hmoment with hmoment | hlast
    · exact (hsame moment hmoment).trans hdisk.symm
    · rw [List.mem_singleton.mp hlast]
  cases phase with
  | idle | choosing => trivial
  | scanning scanned moments => exact ⟨hphase.1, hmoments moments hphase.2⟩
  | reading scanned hashes order moments =>
      obtain ⟨href, hnodup, hpath, hsame⟩ := hphase
      exact ⟨href, hnodup, hpath, hmoments moments hsame⟩
  | waiting goal checkedOut changes => exact hphase
  | normalizing goal changes contents todo found => exact hphase
  | comparing | writing => exact hphase.elim

/-- A file that the ref has otherwise is to be committed. -/
theorem mem_of_listsChanged {files : FilesAt (List σ) β δ} {missing : List σ → Bool}
    {moments : List (FileTree σ β)} {pick : List σ → ℕ} {order : List (List σ)}
    (hmissing : missing path = false)
    (hdiffers : env.getHashIndex files path ≠ env.getAllFiles state.disk path)
    (hsame : ∀ moment ∈ moments, moment.files.lookup path = state.disk.files.lookup path)
    (hpending : state.pendingNormalizedFiles.lookup path = none)
    (horder : ListsChanged (commitChanges (env.getHashIndexWithout files missing)
      (env.scan state.disk moments pick) state.pendingNormalizedFiles)
      (pathsOf files state.disk moments) order) : path ∈ order := by
  have hwithout : env.getHashIndexWithout files missing path = env.getHashIndex files path := by
    rw [ProjectEnv.getHashIndexWithout, hmissing]
    rfl
  refine List.mem_toFinset.mp ?_
  rw [horder.2, Finset.mem_filter, commitChanges, hpending, getFileChanges, hwithout,
    scan_eq_getAllFiles hsame]
  cases hindex : env.getHashIndex files path with
  | none =>
      cases hfound : env.getAllFiles state.disk path with
      | none => exact absurd (hindex.trans hfound.symm) hdiffers
      | some found =>
          obtain ⟨-, content, hcontent, -⟩ := ProjectEnv.getAllFiles_eq_some_iff.mp hfound
          exact ⟨mem_pathsOf_disk (Finmap.mem_of_lookup_eq_some hcontent), Option.some_ne_none _⟩
  | some hash =>
      have hpath : path ∈ files := by
        unfold ProjectEnv.getHashIndex at hindex
        split at hindex
        · cases hindex
        · obtain ⟨entry, hentry, -⟩ := Option.bind_eq_some_iff.mp hindex
          exact Finmap.mem_of_lookup_eq_some hentry
      refine ⟨mem_pathsOf_files hpath, ?_⟩
      cases hfound : env.getAllFiles state.disk path with
      | none => exact Option.some_ne_none _
      | some found =>
          have hne : hash ≠ found := by
            rintro rfl
            exact hdiffers (hindex.trans hfound.symm)
          dsimp only
          rw [if_pos hne]
          exact Option.some_ne_none _

theorem PhaseBehind.startWaiting {ref goal : HistoryRef κ χ} {disk : FileTree σ β}
    {checkedOut : Option (HistoryRef κ χ)} :
    PhaseBehind path disk ref (state.startWaiting goal checkedOut none).phase := by
  have hcases : (state.startWaiting goal checkedOut none).phase = .idle ∨
      (state.startWaiting goal checkedOut none).phase = .waiting goal checkedOut none :=
    LoopState.startWaiting_phase
  rcases hcases with hphase | hphase
  · rw [hphase]
    trivial
  · rw [hphase]
    rfl

variable [DecidableEq κ] [DecidableEq χ] {action : LoopAction σ β δ κ χ}

/-- **Until a commit reads the file, the disk stays behind.** -/
theorem Behind.step (hbehind : Behind env path branch content state)
    (hallowed : LeavesBehind path branch state action) (hstep : LoopStep env state action next) :
    Behind env path branch content next := by
  have hgrows : ∀ ref files, state.filesAt ref = some files → next.filesAt ref = some files :=
    fun _ _ => filesAt_of_loopStep hstep
  cases hstep with
  | edit hother =>
      have hsame := hother path (Ne.symm hallowed)
      exact hbehind.frame hsame rfl rfl hgrows hbehind.pending
        fun _ _ _ _ _ hphase => hphase.watch hsame
  | deliver | setSafe =>
      exact hbehind.frame rfl rfl rfl hgrows hbehind.pending fun _ _ _ _ _ => id
  | merge | dropShadow =>
      exact hbehind.frame rfl rfl (Function.update_of_ne (Ne.symm hallowed) _ _) hgrows
        hbehind.pending fun _ _ _ _ _ => id
  | startChoosing | failIndex | findNothing | commitNowhere | chooseUnsafe | noGoal | passRefused =>
      exact hbehind.frame rfl rfl rfl hgrows hbehind.pending fun _ _ _ _ _ _ => trivial
  | @startScan ref hcase href _ =>
      refine hbehind.frame rfl rfl rfl hgrows hbehind.pending ?_
      intro heads _ hcheckedOut _ _ _
      refine ⟨Option.some.inj (href.symm.trans hcheckedOut), fun moment hmoment => ?_⟩
      rw [List.mem_singleton.mp hmoment]
  | @findChanges ref moments files pick missing order hcase hfiles horder _ =>
      refine hbehind.frame rfl rfl rfl hgrows hbehind.pending ?_
      intro heads found _ hfound hdiffers hphase
      rw [hcase] at hphase
      obtain ⟨rfl, hsame⟩ := hphase
      obtain rfl := Option.some.inj (hfiles.symm.trans hfound)
      refine ⟨rfl, horder.1, mem_of_listsChanged hallowed hdiffers hsame hbehind.pending
        horder, fun moment hmoment => ?_⟩
      rw [List.mem_singleton.mp hmoment]
  | @commit ref scanned order moments pick readFails heads newHeads files stored contents hcase
      hshadow hfiles hcontents hstored _ =>
      obtain ⟨known, found, -, hheads, hfound, hdiffers, hphase⟩ := hbehind.ahead
      rw [hcase] at hphase
      obtain ⟨rfl, hnodup, hpath, -⟩ := hphase
      obtain rfl := Option.some.inj (hshadow.symm.trans hheads)
      obtain rfl := Option.some.inj (hfiles.symm.trans hfound)
      have hkept : stored.lookup path = files.lookup path := by
        rw [hstored, hcontents]
        exact lookup_foldl_commitEntry_of_not_mem hnodup (.inr hallowed)
      refine ⟨hbehind.disk, ⟨newHeads, stored, rfl, Function.update_self _ _ _,
        Function.update_self _ _ _, ?_, trivial⟩, ?_⟩
      · rw [ProjectEnv.getHashIndex, hkept]
        exact hdiffers
      · subst hcontents
        exact (lookup_foldl_noteStatus_of_not_mem hnodup (.inr hallowed)).trans hbehind.pending
  | @chooseSame other heads hcase _ hheads hsame =>
      refine hbehind.frame rfl rfl rfl hgrows hbehind.pending ?_
      intro known _ _ _ _ _
      exact PhaseBehind.startWaiting
  | @chooseOther other heads hcase _ hheads hother =>
      obtain ⟨known, _, hcheckedOut, hknown, -⟩ := hbehind.ahead
      obtain rfl : other = branch := hallowed
      obtain rfl := Option.some.inj (hheads.symm.trans hknown)
      exact absurd hcheckedOut hother
  | failGoal hcase | propose hcase | runJob hcase | finish hcase =>
      obtain ⟨_, _, -, -, -, -, hphase⟩ := hbehind.ahead
      rw [hcase] at hphase
      exact hphase.elim
  | @passNormalizing goal ref changes missing order files hcase _ _ _ horder =>
      refine hbehind.frame rfl rfl rfl hgrows hbehind.pending ?_
      intro heads _ _ _ _ hphase
      rw [hcase] at hphase
      refine ⟨hphase, ?_, fun content hfound => by cases hfound⟩
      intro entry hentry hpath
      have hnoted := horder.mem_iff.mp hentry
      rw [hpath, hbehind.pending] at hnoted
      cases hnoted
  | @passWriting goal checkedOut changes missing order hcase =>
      refine hbehind.frame rfl rfl rfl hgrows hbehind.pending ?_
      intro heads _ _ _ _ hphase
      rw [hcase] at hphase
      obtain rfl : changes = none := hphase
      trivial
  | @compareHash goal changes contents entry todo hcase =>
      refine hbehind.frame rfl rfl rfl hgrows hbehind.pending ?_
      intro heads _ _ _ _ hphase
      rw [hcase] at hphase
      obtain ⟨hchanges, htodo, -⟩ := hphase
      refine ⟨hchanges, fun later hlater => htodo later (List.mem_cons_of_mem _ hlater), ?_⟩
      intro content hfound
      exact htodo entry List.mem_cons_self (LoopState.fst_of_toNormalize hfound).symm
  | @writeNormalized goal changes contents todo other found hcase =>
      have hne : path ≠ other := by
        rintro rfl
        obtain ⟨_, _, -, -, -, -, hphase⟩ := hbehind.ahead
        rw [hcase] at hphase
        exact hphase.2.2 found rfl
      refine hbehind.frame (ProjectEnv.lookup_handleFileUpdate_of_ne hne) rfl rfl hgrows
        hbehind.pending ?_
      intro heads _ _ _ _ hphase
      rw [hcase] at hphase
      exact ⟨hphase.1, hphase.2.1, fun content hfound => by cases hfound⟩
  | @endNormalizing goal changes contents hcase =>
      refine hbehind.frame rfl rfl rfl hgrows (Finmap.lookup_empty path) ?_
      intro heads _ _ _ _ hphase
      rw [hcase] at hphase
      obtain rfl : changes = none := hphase.1
      trivial

/-- What a commit leaves, if it goes through. -/
theorem Behind.commit {pick : List σ → ℕ} {readFails : List σ → Bool} {newHeads : Finset χ}
    (hbehind : Behind env path branch content state) (hreads : readFails path = false)
    (hstep : LoopStep env state (.commit pick readFails newHeads) next) :
    next.shadowHeads branch = some newHeads ∧ ∃ files,
      next.filesAt ⟨branch, newHeads⟩ = some files ∧ files.lookup path =
        (content.map env.normalize).map fun found => ⟨[env.toHash found], some found⟩ := by
  obtain ⟨heads, known, -, hheads, -, -, hphase⟩ := hbehind.ahead
  cases hstep with
  | commitNowhere hcase hshadow =>
      rw [hcase] at hphase
      obtain ⟨rfl, -⟩ := hphase
      rw [hheads] at hshadow
      cases hshadow
  | commit hcase hshadow hfiles hcontents hstored _ =>
      rw [hcase] at hphase
      obtain ⟨rfl, hnodup, hpath, hsame⟩ := hphase
      refine ⟨Function.update_self _ _ _, _, Function.update_self _ _ _, ?_⟩
      rw [hstored, hcontents, lookup_foldl_commitEntry hnodup hpath hreads hsame, hbehind.disk]

/-- A commit whose base is behind leaves the disk behind. -/
theorem behind_of_commit {ref : HistoryRef κ χ} {scanned : List σ → Option δ}
    {order : List (List σ)} {moments : List (FileTree σ β)} {pick : List σ → ℕ}
    {readFails : List σ → Bool} {heads newHeads : Finset χ} {files : FilesAt (List σ) β δ}
    (hphase : state.phase = .reading ref scanned order moments)
    (hshadow : state.shadowHeads ref.branch = some heads)
    (hfiles : state.filesAt ⟨ref.branch, heads⟩ = some files) (hnodup : order.Nodup)
    (hpath : path ∉ order)
    (hdiffers : env.getHashIndex files path ≠ env.getAllFiles state.disk path)
    (hpending : state.pendingNormalizedFiles.lookup path = none)
    (hstep : LoopStep env state (.commit pick readFails newHeads) next) :
    Behind env path ref.branch (state.disk.files.lookup path) next := by
  cases hstep with
  | commitNowhere hcase hnone =>
      cases hphase.symm.trans hcase
      rw [hshadow] at hnone
      cases hnone
  | commit hcase hsome hfound hcontents hstored _ =>
      cases hphase.symm.trans hcase
      obtain rfl := Option.some.inj (hshadow.symm.trans hsome)
      obtain rfl := Option.some.inj (hfiles.symm.trans hfound)
      subst hcontents
      refine ⟨rfl, ⟨newHeads, _, rfl, Function.update_self _ _ _, Function.update_self _ _ _, ?_,
        trivial⟩, (lookup_foldl_noteStatus_of_not_mem hnodup (.inl hpath)).trans hpending⟩
      rw [ProjectEnv.getHashIndex, hstored,
        lookup_foldl_commitEntry_of_not_mem hnodup (.inl hpath)]
      exact hdiffers

variable [DecidableEq β]

/-- **Others' changes that come in between are undone**: if a commit lands on heads with a change
of others to a file that it does not commit itself, then in every run from there the disk stays as
it is at the file, until it is edited, the branch changes again or another one is requested, and
the first commit that reads the file puts what is on disk in the place of the change. -/
theorem undoes_of_leads {ref : HistoryRef κ χ} {scanned : List σ → Option δ}
    {order : List (List σ)} {moments : List (FileTree σ β)} {pick : List σ → ℕ}
    {readFails : List σ → Bool} {heads newHeads : Finset χ} {files : FilesAt (List σ) β δ}
    {later : LoopState σ β δ κ χ}
    (hreach : (loopSystem env).Reachable (fun _ _ => True) state)
    (hphase : state.phase = .reading ref scanned order moments)
    (hshadow : state.shadowHeads ref.branch = some heads)
    (hfiles : state.filesAt ⟨ref.branch, heads⟩ = some files) (hpath : path ∉ order)
    (hdiffers : env.getHashIndex files path ≠ env.getAllFiles state.disk path)
    (hpending : state.pendingNormalizedFiles.lookup path = none)
    (hcommit : state.step env (.commit pick readFails newHeads) = some next)
    (hleads : (loopSystem env).Leads (LeavesBehind path ref.branch) next later) :
    later.disk.files.lookup path = state.disk.files.lookup path ∧
      ∀ pick readFails newHeads final, readFails path = false →
        later.step env (.commit pick readFails newHeads) = some final →
          final.shadowHeads ref.branch = some newHeads ∧ ∃ stored,
            final.filesAt ⟨ref.branch, newHeads⟩ = some stored ∧ stored.lookup path =
              ((state.disk.files.lookup path).map env.normalize).map
                fun content => ⟨[env.toHash content], some content⟩ := by
  obtain ⟨record, hrecord⟩ := hreach.exists_record EditRecord.start (EditRecord.note env)
  have hsound := (sound_of_reachable hrecord).phase
  rw [hphase] at hsound
  have hbehind : Behind env path ref.branch (state.disk.files.lookup path) later := by
    induction hleads with
    | refl =>
        exact behind_of_commit hphase hshadow hfiles hsound.2.nodup hpath hdiffers hpending
          (loopStep_of_step hcommit)
    | step _ hallowed hstep ih => exact ih.step hallowed (loopStep_of_step hstep)
  refine ⟨hbehind.disk, fun _ _ _ final hreads hstep => ?_⟩
  exact hbehind.commit hreads (loopStep_of_step hstep)

end Steps

/-! ## A run -/

/-- The disk has what is checked out. -/
def insyncLoop : LoopState String String String Unit ℕ where
  disk := oneFile "old"
  pendingChanges := []
  filesAt ref := if ref.heads = {0} then some (oneFileAt "old" (some "old")) else none
  shadowHeads _ := some {0}
  checkedOutRef := some ⟨(), {0}⟩
  pendingNormalizedFiles := ∅
  safeToUpdateEditor := true
  phase := .idle

/-- A commit that reads everything. -/
def commitAll (heads : Finset ℕ) : LoopAction String String String Unit ℕ :=
  .commit (fun _ => 0) (fun _ => false) heads

/-- A user makes another file, and while it is to be committed others change the first one. -/
def mergedLoop : LoopState String String String Unit ℕ :=
  (loopSystem plainSyncEnv).after insyncLoop
    [.edit ["b"] ((oneFile "old").write (fun _ => false) ["b"] "mine"), .deliver ["b"], .sync,
      .finishScan (fun _ => 0) (fun _ => false) [["b"]],
      .merge () {1} (oneFileAt "new" (some "new"))]

def committedLoop : LoopState String String String Unit ℕ :=
  (loopSystem plainSyncEnv).after mergedLoop [commitAll {2}]

/-- The user changes the other file again. -/
def editAgain : List (LoopAction String String String Unit ℕ) :=
  [.choose (), .edit ["b"] ((oneFile "old").write (fun _ => false) ["b"] "more"), .deliver ["b"],
    .sync, .finishScan (fun _ => 0) (fun _ => false) [["a"], ["b"]]]

def editedLoop : LoopState String String String Unit ℕ :=
  (loopSystem plainSyncEnv).after committedLoop editAgain

theorem leavesBehind_editAgain (action : LoopAction String String String Unit ℕ)
    (haction : action ∈ editAgain) (state : LoopState String String String Unit ℕ) :
    LeavesBehind ["a"] () state action := by
  simp only [editAgain, List.mem_cons, List.not_mem_nil, or_false] at haction
  rcases haction with rfl | rfl | rfl | rfl | rfl
  all_goals simp [LeavesBehind]

/-- **The second commit puts the old file in the place of the new one.** -/
theorem undoes_new_of_editAgain : ∃ stored,
    ((loopSystem plainSyncEnv).after editedLoop [commitAll {3}]).filesAt ⟨(), {3}⟩ = some stored ∧
      stored.lookup ["a"] = some ⟨["old"], some "old"⟩ := by
  have hreach : (loopSystem plainSyncEnv).Reachable (fun _ _ => True) mergedLoop :=
    System.Reachable.after (.start rfl) (System.runsWithin_true _ _)
  have hphase : ∃ scanned moments,
      mergedLoop.phase = .reading ⟨(), {0}⟩ scanned [["b"]] moments := ⟨_, _, rfl⟩
  obtain ⟨scanned, moments, hphase⟩ := hphase
  have hcommit : mergedLoop.step plainSyncEnv (commitAll {2}) = some committedLoop :=
    System.step_eq_some_after
      (by decide : ((loopSystem plainSyncEnv).step mergedLoop (commitAll {2})).isSome)
  have hagain : editedLoop.step plainSyncEnv (commitAll {3}) =
      some ((loopSystem plainSyncEnv).after editedLoop [commitAll {3}]) :=
    System.step_eq_some_after
      (by decide : ((loopSystem plainSyncEnv).step editedLoop (commitAll {3})).isSome)
  have hshadow : mergedLoop.shadowHeads () = some {1} := by decide
  have hfiles : mergedLoop.filesAt ⟨(), {1}⟩ = some (oneFileAt "new" (some "new")) := by decide
  have hdiffers : plainSyncEnv.getHashIndex (oneFileAt "new" (some "new")) ["a"] ≠
      plainSyncEnv.getAllFiles mergedLoop.disk ["a"] := by decide
  have hpending : mergedLoop.pendingNormalizedFiles.lookup ["a"] = none := by decide
  have hleads : (loopSystem plainSyncEnv).Leads (LeavesBehind ["a"] ()) committedLoop editedLoop :=
    System.Leads.after .refl (System.runsWithin_of_forall leavesBehind_editAgain _)
  have hundoes := undoes_of_leads hreach hphase hshadow hfiles (by decide) hdiffers hpending
    hcommit hleads
  obtain ⟨-, stored, hstored, hlookup⟩ := hundoes.2 _ _ _ _ rfl hagain
  exact ⟨stored, hstored, hlookup.trans (by decide)⟩

end Backstitch
