/-
# The paths that a checkout touches

The keys of a branch document are joined to the project directory as they are.  Whether a
path is inside is decided on its components before `..` is resolved.  A file is written after the
directories that are missing on its way have been made.
-/

import Backstitch.Library.UnixPath
import Backstitch.Project.Checkout

namespace Backstitch

universe v w

/-- A file of a branch document: its hash and its content, where they can be read. -/
structure KeyedFile (β : Type v) (δ : Type w) where
  hash : Option δ
  content : Option β

/-- What a checkout reads, and how its calls to the file system end. -/
structure CheckoutPaths (β : Type v) (δ : Type w) where
  projectDir : String
  gitignore : String → Bool → Bool
  /-- The current ref is the goal. -/
  currentIsGoal : Bool
  /-- `get_all_files`. -/
  allFiles : List (String × δ)
  /-- The files of the goal, under their keys. -/
  goalFiles : String → Option (KeyedFile β δ)
  /-- `pending_normalized_files`. -/
  pendingNormalizedFiles : List (String × δ)
  /-- The files of the ref that is checked out, for the pending normalizations. -/
  refFiles : String → Option β
  toHash : β → δ
  /-- `get_hash` of the index. -/
  indexHash : String → Option δ
  /-- A file or directory is there. -/
  pathExists : List PathComponent → Bool
  /-- `mkdir`, for a directory that is missing. -/
  makes : List PathComponent → Bool
  writes : String → β → Bool
  canonicalizes : String → Bool
  removes : String → Bool
  /-- The project directory is there. -/
  projectDir_exists : ∀ dir, dir <+: UnixPath.components projectDir → pathExists dir = true

namespace CheckoutPaths

variable {β : Type v} {δ : Type w} [DecidableEq δ] (env : CheckoutPaths β δ)

open UnixPath

omit [DecidableEq δ] in
/-- `localize_path`. -/
def localizePath (path : String) : String :=
  match stripPrefix (slashes env.projectDir) (slashes path) with
  | some rest => join "res://" rest
  | none => slashes path

omit [DecidableEq δ] in
def globalizePath (path : String) : String :=
  match stripPrefix "res://" path with
  | some rest => join env.projectDir rest
  | none => path

omit [DecidableEq δ] in
def shouldIgnore (path : String) (isDir : Bool) : Bool :=
  if !startsWith path env.projectDir then true
  else if isDir && components path = components env.projectDir then false
  else env.gitignore path isDir

/-- The files on disk under their keys. -/
def currentFiles (key : String) : Option δ :=
  (env.allFiles.map fun file => (env.localizePath file.1, file.2)).reverse.lookup key

/-- `get_hash_index` of the goal. -/
def getHashIndex (key : String) : Option δ :=
  if env.shouldIgnore (env.globalizePath key) false then none
  else (env.goalFiles key).bind (·.hash)

/-- `get_file_changes`, for one key. -/
def fileChange (key : String) : Option ChangeType :=
  match env.currentFiles key, env.getHashIndex key with
  | none, some _ => some .created
  | some before, some after => if before ≠ after then some .modified else none
  | some _, none => some .deleted
  | none, none => none

/-- `checkout_ref`: the path and the job of one key.  Where several keys lead to one path,
the map keeps one of them. -/
def checkoutRef (key : String) : Option (String × FileJob β) :=
  if env.currentIsGoal then none
  else
    match env.fileChange key with
    | some .created | some .modified =>
        ((env.goalFiles key).bind (·.content)).map fun content =>
          (env.globalizePath key, .update content)
    | some .deleted => some (env.globalizePath key, .delete)
    | none => none

def compareHashes (path : String) (content : β) : Bool :=
  env.indexHash path = some (env.toHash content)

omit [DecidableEq δ] in
/-- `create_dir_all`: the directories that are made. -/
def createDirAll (dir : List PathComponent) : List (List PathComponent) :=
  if env.pathExists dir then []
  else dir.inits.filter fun above => !env.pathExists above && env.makes above

omit [DecidableEq δ] in
/-- `write_file_content`: what is made and written. -/
def writeFileContent (path : String) (content : β) : List (List PathComponent) :=
  env.createDirAll (components path).dropLast ++
    if env.writes path content then [components path] else []

/-- What is made and written. -/
def handleFileUpdate (path : String) (content : β) : List (List PathComponent) :=
  if env.shouldIgnore path false || env.compareHashes path content then []
  else env.writeFileContent path content

omit [DecidableEq δ] in
/-- The file that is deleted. -/
def handleFileDelete (path : String) : List (List PathComponent) :=
  if !env.shouldIgnore path false && env.canonicalizes path && env.removes path then
    [components path]
  else []

def handle (path : String) : FileJob β → List (List PathComponent)
  | .update content => env.handleFileUpdate path content
  | .delete => env.handleFileDelete path

/-- One round of `resolve_pending_normalized_files`. -/
def normalize (file : String × δ) : List (List PathComponent) :=
  if env.indexHash file.1 = some file.2 then
    match env.refFiles (env.localizePath file.1) with
    | some content => env.handleFileUpdate file.1 content
    | none => []
  else []

/-- A checkout, or the pending normalizations before it, write, delete or make what is there. -/
def Touches (path : List PathComponent) : Prop :=
  (∃ key found job, env.checkoutRef key = some (found, job) ∧ path ∈ env.handle found job) ∨
    ∃ file ∈ env.pendingNormalizedFiles, path ∈ env.normalize file

omit [DecidableEq δ] in
/-- A path is strictly inside the project directory. -/
def InProject (path : List PathComponent) : Prop :=
  (LexicalPath.normalize path).Inside (LexicalPath.normalize (components env.projectDir))

/-! ## What a key adds to the project directory -/

omit [DecidableEq δ] in
/-- The components behind those of the project directory. -/
def below (path : String) : List PathComponent :=
  (components path).drop (components env.projectDir).length

omit [DecidableEq δ] in
/-- What a key adds to the project directory: all of the text behind `res://`, unless this
is an absolute path of its own. -/
def keyTail (key : String) : List PathComponent :=
  match stripPrefix "res://" key with
  | some rest =>
      if isAbsolute rest ∨ env.projectDir = "" then env.below rest else segmentComponents rest
  | none => env.below key

omit [DecidableEq δ] in
/-- The components go up from the project directory at most to come back to it, and then
further in. -/
def StaysInside (tail : List PathComponent) : Prop :=
  .rootDir ∉ tail ∧
    (LexicalPath.normalize (components env.projectDir)).Stays (LexicalPath.normalize tail)

omit [DecidableEq δ] in
theorem below_globalizePath (key : String) :
    env.below (env.globalizePath key) = env.keyTail key := by
  rw [globalizePath, keyTail]
  cases stripPrefix "res://" key with
  | none => rfl
  | some rest =>
      by_cases habsolute : isAbsolute rest = true
      · simp only [join, habsolute, if_true, true_or]
      · by_cases hdir : env.projectDir = ""
        · simp [join, habsolute, hdir]
        · have hrelative : isAbsolute rest = false := by simpa using habsolute
          simp only [habsolute, hdir, below]
          rw [components_join hdir hrelative, List.drop_left]
          simp

variable {env}

omit [DecidableEq δ] in
/-- What the check for the project directory lets through starts with its components. -/
theorem components_eq_of_startsWith {path : String}
    (hstarts : startsWith path env.projectDir = true) :
    components path = components env.projectDir ++ env.below path := by
  obtain ⟨rest, hrest⟩ := of_decide_eq_true hstarts
  rw [below, ← hrest, List.drop_left]

omit [DecidableEq δ] in
/-- **What lies on the way to a path that passes the check is inside exactly where its components
stay inside.** -/
theorem inProject_append_iff {path : String} {tail : List PathComponent}
    (htail : tail <+: env.below path) :
    env.InProject (components env.projectDir ++ tail) ↔ env.StaysInside tail := by
  have hfollow : LexicalPath.normalize (components env.projectDir ++ tail) =
      (LexicalPath.normalize (components env.projectDir)).follow tail :=
    LexicalPath.follow_append _ _ _
  rw [InProject, StaysInside]
  by_cases hroot : PathComponent.rootDir ∈ tail
  · -- only below an empty project directory
    have hempty : components env.projectDir = [] := by
      by_contra hne
      obtain ⟨count, hcount⟩ := Nat.exists_eq_succ_of_ne_zero
        (fun hzero => hne (List.eq_nil_of_length_eq_zero hzero))
      have hbelow := htail.subset hroot
      rw [below, hcount] at hbelow
      exact rootDir_not_mem_drop_components path count hbelow
    have hrooted :
        (LexicalPath.normalize (components env.projectDir ++ tail)).rooted = true := by
      apply LexicalPath.rooted_normalize
      exact List.mem_append_right _ hroot
    rw [hempty] at hrooted ⊢
    constructor
    · intro hinside
      exact absurd (hinside.1.symm.trans hrooted) Bool.false_ne_true
    · intro hstays
      exact absurd hroot hstays.1
  · rw [hfollow, LexicalPath.follow_eq_goto _ hroot, LexicalPath.inside_goto_iff]
    exact (and_iff_right hroot).symm

omit [DecidableEq δ] in
theorem startsWith_of_not_shouldIgnore {path : String}
    (hshould : env.shouldIgnore path false = false) : startsWith path env.projectDir = true := by
  rw [shouldIgnore] at hshould
  split_ifs at hshould with hstarts
  · simpa using hstarts
  · simpa using hstarts

omit [DecidableEq δ] in
/-- What is touched for a path that passes the check lies on its way from the project directory. -/
theorem exists_tail_of_mem {path : String} (hstarts : startsWith path env.projectDir = true)
    {touched : List PathComponent} (hleads : touched <+: components path)
    (hbeyond : ¬ touched <+: components env.projectDir ∨ touched = components path) :
    ∃ tail, tail <+: env.below path ∧ touched = components env.projectDir ++ tail := by
  have hpath := components_eq_of_startsWith hstarts
  rcases hbeyond with hbeyond | rfl
  · have hdir : components env.projectDir <+: touched := by
      refine (List.prefix_or_prefix_of_prefix ?_ hleads).resolve_right hbeyond
      rw [hpath]
      exact List.prefix_append _ _
    obtain ⟨tail, rfl⟩ := hdir
    rw [hpath, List.prefix_append_right_inj] at hleads
    exact ⟨tail, hleads, rfl⟩
  · exact ⟨env.below path, List.prefix_rfl, hpath⟩

omit [DecidableEq δ] in
/-- The directories that are made are missing ones on the way. -/
theorem of_mem_createDirAll {dir made : List PathComponent} (hmade : made ∈ env.createDirAll dir) :
    made <+: dir ∧ env.pathExists made = false := by
  rw [createDirAll] at hmade
  split_ifs at hmade
  · nomatch hmade
  · obtain ⟨hleads, hmissing⟩ := List.mem_filter.mp hmade
    rw [Bool.and_eq_true, Bool.not_eq_true'] at hmissing
    exact ⟨(List.mem_inits _ _).mp hleads, hmissing.1⟩

/-- **Only what lies on the way of a path that passes the check is touched.** -/
theorem exists_tail_of_mem_handle {path : String} {job : FileJob β}
    {touched : List PathComponent} (htouched : touched ∈ env.handle path job) :
    startsWith path env.projectDir = true ∧
      ∃ tail, tail <+: env.below path ∧ touched = components env.projectDir ++ tail := by
  cases job with
  | update content =>
      rw [handle, handleFileUpdate] at htouched
      split_ifs at htouched with hskips
      · nomatch htouched
      obtain ⟨hshould, -⟩ := Bool.or_eq_false_iff.mp (by simpa using hskips)
      have hstarts := startsWith_of_not_shouldIgnore hshould
      refine ⟨hstarts, ?_⟩
      rcases List.mem_append.mp htouched with hmade | hwritten
      · obtain ⟨hleads, hmissing⟩ := of_mem_createDirAll hmade
        apply exists_tail_of_mem hstarts (hleads.trans (List.dropLast_prefix _))
        left
        intro hdir
        rw [env.projectDir_exists touched hdir] at hmissing
        nomatch hmissing
      · split_ifs at hwritten
        · have hsame := List.mem_singleton.mp hwritten
          exact exists_tail_of_mem hstarts (hsame ▸ List.prefix_rfl) (.inr hsame)
        · nomatch hwritten
  | delete =>
      rw [handle, handleFileDelete] at htouched
      split_ifs at htouched with hdeletes
      · rw [Bool.and_eq_true, Bool.and_eq_true, Bool.not_eq_true'] at hdeletes
        have hstarts := startsWith_of_not_shouldIgnore hdeletes.1.1
        have hsame := List.mem_singleton.mp htouched
        exact ⟨hstarts, exists_tail_of_mem hstarts (hsame ▸ List.prefix_rfl) (.inr hsame)⟩
      · nomatch htouched

theorem exists_tail_of_mem_normalize {file : String × δ} {touched : List PathComponent}
    (htouched : touched ∈ env.normalize file) :
    startsWith file.1 env.projectDir = true ∧
      ∃ tail, tail <+: env.below file.1 ∧ touched = components env.projectDir ++ tail := by
  rw [normalize] at htouched
  split_ifs at htouched
  · split at htouched
    · rename_i content _
      have hhandled : touched ∈ env.handle file.1 (.update content) := htouched
      exact exists_tail_of_mem_handle hhandled
    · nomatch htouched
  · nomatch htouched

theorem path_of_checkoutRef {key path : String} {job : FileJob β}
    (hjob : env.checkoutRef key = some (path, job)) : path = env.globalizePath key := by
  rw [checkoutRef] at hjob
  split_ifs at hjob
  split at hjob
  · obtain ⟨content, -, heq⟩ := Option.map_eq_some_iff.mp hjob
    cases heq
    rfl
  · obtain ⟨content, -, heq⟩ := Option.map_eq_some_iff.mp hjob
    cases heq
    rfl
  · cases hjob
    rfl
  · nomatch hjob

/-- What is written, deleted or made for a key, or for a pending path, stays inside the project
directory. -/
def KeysStayInside (env : CheckoutPaths β δ) : Prop :=
  (∀ key path job, env.checkoutRef key = some (path, job) → ∀ tail, tail <+: env.keyTail key →
      components env.projectDir ++ tail ∈ env.handle path job → env.StaysInside tail) ∧
    ∀ file ∈ env.pendingNormalizedFiles, ∀ tail, tail <+: env.below file.1 →
      components env.projectDir ++ tail ∈ env.normalize file → env.StaysInside tail

/-- **A checkout stays inside the project exactly where the keys do**, with the directories that
are made on their way. -/
theorem touches_inProject_iff :
    (∀ path, env.Touches path → env.InProject path) ↔ env.KeysStayInside := by
  constructor
  · intro hinside
    constructor
    · intro key path job hjob tail htail htouched
      rw [← below_globalizePath, ← path_of_checkoutRef hjob] at htail
      exact (inProject_append_iff htail).mp
        (hinside _ (.inl ⟨key, path, job, hjob, htouched⟩))
    · intro file hfile tail htail htouched
      exact (inProject_append_iff htail).mp
        (hinside _ (.inr ⟨file, hfile, htouched⟩))
  · rintro ⟨hkeys, hpending⟩ touched (⟨key, path, job, hjob, htouched⟩ | ⟨file, hfile, htouched⟩)
    · obtain ⟨-, tail, htail, rfl⟩ := exists_tail_of_mem_handle htouched
      apply (inProject_append_iff htail).mpr
      rw [path_of_checkoutRef hjob, below_globalizePath] at htail
      exact hkeys key path job hjob tail htail htouched
    · obtain ⟨-, tail, htail, rfl⟩ := exists_tail_of_mem_normalize htouched
      exact (inProject_append_iff htail).mpr (hpending file hfile tail htail htouched)

/-! ## A key that leaves the project -/

theorem isPrefixOf_gameDir (dir : List PathComponent)
    (hdir : dir <+: components "/home/user/game/") : dir.isPrefixOf (components "/home/user/game/") = true :=
  List.isPrefixOf_iff_prefix.mpr hdir

/-- An empty project in `/home/user/game`, and a document with the key `res://../notes.txt`. -/
def leavingKey : CheckoutPaths ℕ ℕ where
  projectDir := "/home/user/game/"
  gitignore _ _ := false
  currentIsGoal := false
  allFiles := []
  goalFiles key := if key = "res://../notes.txt" then some ⟨some 1, some 1⟩ else none
  pendingNormalizedFiles := []
  refFiles _ := none
  toHash := id
  indexHash _ := none
  pathExists dir := dir.isPrefixOf (components "/home/user/game/")
  makes _ := true
  writes _ _ := true
  canonicalizes _ := true
  removes _ := true
  projectDir_exists := isPrefixOf_gameDir

/-- The checkout writes `/home/user/notes.txt`. -/
theorem not_touches_inProject_leaving :
    ¬ ∀ path, leavingKey.Touches path → leavingKey.InProject path := by
  intro hinside
  have htouches : leavingKey.Touches (components "/home/user/game/../notes.txt") :=
    .inl ⟨"res://../notes.txt", "/home/user/game/../notes.txt", .update 1, by decide, by decide⟩
  obtain ⟨-, -, name, rest, hnames⟩ := hinside _ htouches
  have hpath : (LexicalPath.normalize (components "/home/user/game/../notes.txt")).names =
      ["home", "user", "notes.txt"] := by decide
  have hdir : (LexicalPath.normalize (components leavingKey.projectDir)).names =
      ["home", "user", "game"] := by decide
  rw [hpath, hdir] at hnames
  simp at hnames

end CheckoutPaths

end Backstitch
