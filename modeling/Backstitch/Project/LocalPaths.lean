/-
# Local and global paths

`localize_path` turns every backslash into a slash before it cuts the project directory off,
and `globalize_path` turns none back.  On a Unix system a backslash is a character of a name
like any other.

Seen from the files of a project, the two make a pairing of paths with keys (`PathKeys`).
-/

import Backstitch.Project.CheckoutPaths

namespace Backstitch

universe v w

namespace UnixPath

theorem toList_slashes (text : String) :
    (slashes text).toList = text.toList.map fun char => if char = '\\' then '/' else char :=
  String.toList_ofList

theorem slashes_append (first second : String) :
    slashes (first ++ second) = slashes first ++ slashes second := by
  rw [← String.toList_inj, String.toList_append, toList_slashes, toList_slashes, toList_slashes,
    String.toList_append, List.map_append]

theorem backslash_not_mem_slashes (text : String) : '\\' ∉ (slashes text).toList := by
  rw [toList_slashes]
  intro hmem
  obtain ⟨char, -, hchar⟩ := List.mem_map.mp hmem
  split_ifs at hchar with hbackslash
  · nomatch hchar
  · exact hbackslash hchar

/-- Only texts without backslashes stay as they are. -/
theorem slashes_eq_self_iff {text : String} : slashes text = text ↔ '\\' ∉ text.toList := by
  constructor
  · intro hsame
    rw [← hsame]
    exact backslash_not_mem_slashes text
  · intro hfree
    rw [← String.toList_inj, toList_slashes]
    conv_rhs => rw [← List.map_id text.toList]
    apply List.map_congr_left
    intro char hmem
    have hother : char ≠ '\\' := by
      rintro rfl
      exact hfree hmem
    exact if_neg hother

theorem join_of_relative {base path : String} (hbase : base.toList.getLast? = some '/')
    (hpath : isAbsolute path = false) : join base path = base ++ path := by
  rw [join, if_neg (by simp [hpath]), if_pos (.inr hbase)]

/-- A path that starts with a slash is none under `res://`. -/
theorem ne_res_of_isAbsolute {path : String} (habsolute : isAbsolute path = true)
    (rest : String) : path ≠ "res://" ++ rest := by
  rintro rfl
  simp [isAbsolute] at habsolute

/-- Without backslashes, nothing starts with a slash that did not before. -/
theorem backslash_mem_of_isAbsolute_slashes {path : String} (hpath : isAbsolute path = false)
    (habsolute : isAbsolute (slashes path) = true) : '\\' ∈ path.toList := by
  by_contra hfree
  rw [slashes_eq_self_iff.mpr hfree, hpath] at habsolute
  nomatch habsolute

/-! ## Names -/

/-- A text that is one component of a path, under its own name. -/
def IsName (name : String) : Prop :=
  toComponent name = some (.normal name) ∧ '/' ∉ name.toList

/-- The names in a path are texts between its slashes. -/
theorem mem_splitAtChar_of_normal_mem {path name : String}
    (hmem : .normal name ∈ segmentComponents path) :
    name ∈ splitAtChar '/' path ∧ toComponent name = some (.normal name) := by
  obtain ⟨segment, hsegment, hname⟩ := List.mem_filterMap.mp hmem
  have hsame : segment = name := by
    rw [toComponent] at hname
    split_ifs at hname
    · cases hname
    · exact PathComponent.normal.inj (Option.some.inj hname)
  rw [← hsame]
  exact ⟨hsegment, by rw [hname, hsame]⟩

theorem isName_of_normal_mem {path name : String} (hmem : .normal name ∈ segmentComponents path) :
    IsName name :=
  have hsegment := mem_splitAtChar_of_normal_mem hmem
  ⟨hsegment.2, not_mem_of_mem_splitAtChar hsegment.1⟩

/-- No component of a path without backslashes has one. -/
theorem backslash_not_mem_of_normal_mem {path name : String}
    (hmem : .normal name ∈ segmentComponents path) (hfree : '\\' ∉ path.toList) :
    '\\' ∉ name.toList := fun hbackslash =>
  hfree ((infix_of_mem_splitAtChar (mem_splitAtChar_of_normal_mem hmem).1).subset hbackslash)

/-- The components of joined names are the names. -/
theorem segmentComponents_intercalate {names : List String} (hnames : ∀ name ∈ names, IsName name) :
    segmentComponents ("/".intercalate names) = names.map .normal := by
  cases names with
  | nil => decide
  | cons first rest =>
      rw [segmentComponents, show ("/" : String) = String.singleton '/' from rfl,
        splitAtChar_intercalate (fun name hname => (hnames name hname).2) (List.cons_ne_nil _ _),
        List.filterMap_eq_map_iff_forall_eq_some]
      exact fun name hname => (hnames name hname).1

/-- Joined names do not start with a slash. -/
theorem isAbsolute_intercalate {names : List String} (hnames : ∀ name ∈ names, IsName name) :
    isAbsolute ("/".intercalate names) = false := by
  cases names with
  | nil => decide
  | cons first rest =>
      by_contra habsolute
      have hhead : ("/".intercalate (first :: rest)).toList.head? = some '/' := by
        simpa [isAbsolute] using habsolute
      obtain ⟨tail, htail⟩ := List.head?_eq_some_iff.mp hhead
      have htext : "/".intercalate (first :: rest) =
          "" ++ String.singleton '/' ++ String.ofList tail := by
        rw [← String.toList_inj, htail]
        simp
      have hsplit := splitAtChar_intercalate (fun name hname => (hnames name hname).2)
        (List.cons_ne_nil first rest)
      have hempty : "" ∈ first :: rest := by
        rw [← hsplit]
        change "" ∈ splitAtChar '/' ("/".intercalate (first :: rest))
        rw [htext, splitAtChar_append, splitAtChar_of_not_mem (by simp)]
        exact List.mem_append_left _ (List.mem_singleton_self _)
      exact absurd (hnames "" hempty).1 (by decide)

/-- A name that a directory can hold. -/
structure FileName (name : String) : Prop where
  ne_empty : name ≠ ""
  ne_dot : name ≠ "."
  ne_dots : name ≠ ".."
  slash_not_mem : '/' ∉ name.toList
  nul_not_mem : '\x00' ∉ name.toList

theorem FileName.isName {name : String} (hname : FileName name) : IsName name := by
  refine ⟨?_, hname.slash_not_mem⟩
  rw [toComponent, if_neg (not_or.mpr ⟨hname.ne_empty, hname.ne_dot⟩), if_neg hname.ne_dots]

/-- The names that lead from the project directory to a file inside. -/
structure ProjectFile where
  names : List String
  names_ne_nil : names ≠ []
  fileName : ∀ name ∈ names, FileName name

namespace ProjectFile

/-- The path of a file relative to the project directory. -/
def text (file : ProjectFile) : String := "/".intercalate file.names

theorem splitAtChar_text (file : ProjectFile) : splitAtChar '/' file.text = file.names :=
  splitAtChar_intercalate (fun name hname => (file.fileName name hname).slash_not_mem)
    file.names_ne_nil

theorem text_injective : Function.Injective text := by
  intro first second hsame
  have hnames : first.names = second.names := by
    rw [← first.splitAtChar_text, hsame, second.splitAtChar_text]
  cases first
  cases second
  cases hnames
  rfl

/-- The path is relative. -/
theorem isAbsolute_text (file : ProjectFile) : isAbsolute file.text = false :=
  isAbsolute_intercalate fun name hname => (file.fileName name hname).isName

/-- Every name is a component of the path. -/
theorem normal_mem_segmentComponents {file : ProjectFile} {name : String}
    (hname : name ∈ file.names) : .normal name ∈ segmentComponents file.text := by
  rw [text, segmentComponents_intercalate fun name hname => (file.fileName name hname).isName]
  exact List.mem_map_of_mem hname

/-- A backslash in the path is one in a name. -/
theorem exists_backslash_mem {file : ProjectFile} (hmem : '\\' ∈ file.text.toList) :
    ∃ name ∈ file.names, '\\' ∈ name.toList := by
  rcases mem_intercalate hmem with hslash | hname
  · exact absurd (List.mem_singleton.mp hslash) (by decide)
  · exact hname

end ProjectFile

end UnixPath

namespace CheckoutPaths

variable {β : Type v} {δ : Type w} (env : CheckoutPaths β δ)

open UnixPath

/-! ## The two directions -/

/-- A path in the project directory is localized to `res://`, unless what is left of it
starts with a slash. -/
theorem localizePath_append (rest : String) :
    env.localizePath (env.projectDir ++ rest) = join "res://" (slashes rest) := by
  have hstrip : stripPrefix (slashes env.projectDir) (slashes (env.projectDir ++ rest)) =
      some (slashes rest) := by
    rw [slashes_append, stripPrefix_append]
  unfold CheckoutPaths.localizePath
  split
  · rename_i found hfound
    rw [Option.some.inj (hfound.symm.trans hstrip)]
  · rename_i hnone
    exact absurd (hstrip.symm.trans hnone) (Option.some_ne_none _)

theorem globalizePath_append (rest : String) :
    env.globalizePath ("res://" ++ rest) = join env.projectDir rest := by
  rw [globalizePath, stripPrefix_append]

/-- The path of a file in the project. -/
def pathOf (file : ProjectFile) : String := env.projectDir ++ file.text

/-- A file is localized to a path under `res://` that leads back to it.  Paths are compared by
their components. -/
def ComesBack (file : ProjectFile) : Prop :=
  (∃ rest, env.localizePath (env.pathOf file) = "res://" ++ rest) ∧
    components (env.globalizePath (env.localizePath (env.pathOf file))) =
      components (env.pathOf file)

/-- Both files come back, from different paths. -/
def KeepsFiles (first second : ProjectFile) : Prop :=
  env.ComesBack first ∧ env.ComesBack second ∧
    env.localizePath (env.pathOf first) ≠ env.localizePath (env.pathOf second)

theorem projectDir_ne_empty (hdir : env.projectDir.toList.getLast? = some '/') :
    env.projectDir ≠ "" := by
  intro hempty
  rw [hempty] at hdir
  nomatch hdir

theorem comesBack_iff (hdir : env.projectDir.toList.getLast? = some '/') (file : ProjectFile) :
    env.ComesBack file ↔ '\\' ∉ file.text.toList := by
  have hnonempty := env.projectDir_ne_empty hdir
  have hpath : env.pathOf file = join env.projectDir file.text :=
    (join_of_relative hdir file.isAbsolute_text).symm
  rw [ComesBack, pathOf, localizePath_append]
  by_cases habsolute : isAbsolute (slashes file.text) = true
  · rw [join, if_pos habsolute]
    refine iff_of_false ?_ (not_not.mpr
      (backslash_mem_of_isAbsolute_slashes file.isAbsolute_text habsolute))
    rintro ⟨⟨rest, hrest⟩, -⟩
    exact ne_res_of_isAbsolute habsolute rest hrest
  · rw [Bool.not_eq_true] at habsolute
    rw [join_of_relative (by decide) habsolute, globalizePath_append]
    constructor
    · rintro ⟨-, hcomponents⟩ hbackslash
      obtain ⟨name, hname, hmem⟩ := ProjectFile.exists_backslash_mem hbackslash
      rw [← pathOf, hpath, components_join hnonempty habsolute,
        components_join hnonempty file.isAbsolute_text] at hcomponents
      have hnormal := ProjectFile.normal_mem_segmentComponents hname
      rw [← List.append_cancel_left hcomponents] at hnormal
      exact backslash_not_mem_of_normal_mem hnormal (backslash_not_mem_slashes _) hmem
    · intro hfree
      rw [slashes_eq_self_iff.mpr hfree, join_of_relative hdir file.isAbsolute_text]
      exact ⟨⟨file.text, rfl⟩, rfl⟩

/-- **Exactly when two files keep different local paths that lead back to them.** -/
theorem keepsFiles_iff (hdir : env.projectDir.toList.getLast? = some '/')
    {first second : ProjectFile} (hne : first ≠ second) :
    env.KeepsFiles first second ↔
      '\\' ∉ first.text.toList ∧ '\\' ∉ second.text.toList := by
  rw [KeepsFiles, comesBack_iff env hdir, comesBack_iff env hdir, ← and_assoc, and_iff_left_iff_imp]
  rintro ⟨hfirst, hsecond⟩ hsame
  rw [pathOf, pathOf, localizePath_append, localizePath_append, slashes_eq_self_iff.mpr hfirst,
    slashes_eq_self_iff.mpr hsecond, join_of_relative (by decide) first.isAbsolute_text,
    join_of_relative (by decide) second.isAbsolute_text] at hsame
  exact hne (ProjectFile.text_injective (String.append_right_inj _ |>.mp hsame))

/-- **Exactly when a local path with a relative rest is localized back.** -/
theorem localizePath_globalizePath_iff (hdir : env.projectDir.toList.getLast? = some '/')
    {rest : String} (hrest : isAbsolute rest = false) :
    env.localizePath (env.globalizePath ("res://" ++ rest)) = "res://" ++ rest ↔
      '\\' ∉ rest.toList := by
  rw [globalizePath_append, join_of_relative hdir hrest, localizePath_append]
  by_cases habsolute : isAbsolute (slashes rest) = true
  · rw [join, if_pos habsolute]
    exact iff_of_false (ne_res_of_isAbsolute habsolute rest)
      (not_not.mpr (backslash_mem_of_isAbsolute_slashes hrest habsolute))
  · rw [join_of_relative (by decide) (by simpa using habsolute), String.append_right_inj,
      slashes_eq_self_iff]

/-- **Exactly when local and global paths are inverse.** -/
theorem localize_globalize_iff (hdir : env.projectDir.toList.getLast? = some '/') :
    (∀ first second : ProjectFile, first ≠ second →
      (env.KeepsFiles first second ↔
        '\\' ∉ first.text.toList ∧ '\\' ∉ second.text.toList)) ∧
      ∀ rest, isAbsolute rest = false →
        (env.localizePath (env.globalizePath ("res://" ++ rest)) = "res://" ++ rest ↔
          '\\' ∉ rest.toList) :=
  ⟨fun _ _ hne => env.keepsFiles_iff hdir hne,
    fun _ hrest => env.localizePath_globalizePath_iff hdir hrest⟩

/-! ## The pairing of paths with keys -/

/-- Where a path leads, seen from the project directory. -/
def placeOf (path : String) : DiskPath String (List PathComponent) :=
  if components env.projectDir <+: components path then
    match ((components path).drop (components env.projectDir).length).mapM PathComponent.name? with
    | some names => .file names
    | none => .other (components path)
  else .other (components path)

/-- A path of a file has the names behind the project directory, and nothing else. -/
theorem placeOf_eq_file_iff {path : String} {names : List String} :
    env.placeOf path = .file names ↔
      components path = components env.projectDir ++ names.map .normal := by
  rw [placeOf]
  constructor
  · intro hplace
    split at hplace
    · rename_i hstarts
      obtain ⟨rest, hrest⟩ := hstarts
      rw [← hrest, List.drop_left] at hplace
      split at hplace
      · rename_i found hfound
        obtain rfl := DiskPath.file.inj hplace
        rw [← hrest, PathComponent.mapM_name?_eq_some_iff.mp hfound]
      · nomatch hplace
    · nomatch hplace
  · intro hpath
    rw [hpath, if_pos (List.prefix_append _ _), List.drop_left,
      PathComponent.mapM_name?_eq_some_iff.mpr rfl]

/-- What a path was localized to has no backslashes left: where it leads to a file, the names of
that file have none. -/
theorem names_of_placeOf {path found : List String}
    (hdir : env.projectDir.toList.getLast? = some '/')
    (hfound : env.placeOf (env.globalizePath (env.localizePath
      (env.projectDir ++ "/".intercalate path))) = .file found) :
    ∀ name ∈ found, IsName name ∧ '\\' ∉ name.toList := by
  have hnonempty := env.projectDir_ne_empty hdir
  have hnormal : ∀ name ∈ found,
      .normal name ∈ segmentComponents (slashes ("/".intercalate path)) := by
    intro name hname
    rw [placeOf_eq_file_iff, localizePath_append] at hfound
    have hmem := List.mem_map_of_mem (f := PathComponent.normal) hname
    by_cases habsolute : isAbsolute (slashes ("/".intercalate path)) = true
    · have hkept : env.globalizePath (slashes ("/".intercalate path)) =
          slashes ("/".intercalate path) := by
        rw [globalizePath]
        split
        · rename_i rest hrest
          exact absurd (append_of_stripPrefix hrest) (ne_res_of_isAbsolute habsolute rest)
        · rfl
      rw [join, if_pos habsolute, hkept] at hfound
      have hall : .normal name ∈ components (slashes ("/".intercalate path)) := by
        rw [hfound]
        exact List.mem_append_right _ hmem
      rw [components, startComponents, if_pos habsolute] at hall
      simpa using hall
    · rw [Bool.not_eq_true] at habsolute
      rw [join_of_relative (by decide) habsolute, globalizePath_append,
        components_join hnonempty habsolute, List.append_right_inj] at hfound
      rw [hfound]
      exact hmem
  exact fun name hname => ⟨isName_of_normal_mem (hnormal name hname),
    backslash_not_mem_of_normal_mem (hnormal name hname) (backslash_not_mem_slashes _)⟩

/-- **`localize_path` and `globalize_path` pair the files of a project with keys.** -/
def pathKeys (hdir : env.projectDir.toList.getLast? = some '/') :
    PathKeys String String (List PathComponent) where
  localizePath path := env.localizePath (env.projectDir ++ "/".intercalate path)
  globalizePath key := env.placeOf (env.globalizePath key)
  globalize_localize path found hfound := by
    have hnames := env.names_of_placeOf hdir hfound
    have hnonempty := env.projectDir_ne_empty hdir
    have hfree : '\\' ∉ ("/".intercalate found).toList := by
      intro hmem
      rcases mem_intercalate hmem with hslash | ⟨name, hname, hbackslash⟩
      · exact absurd (List.mem_singleton.mp hslash) (by decide)
      · exact (hnames name hname).2 hbackslash
    have hrelative := isAbsolute_intercalate fun name hname => (hnames name hname).1
    rw [placeOf_eq_file_iff, localizePath_append, slashes_eq_self_iff.mpr hfree,
      join_of_relative (by decide) hrelative, globalizePath_append,
      components_join hnonempty hrelative,
      segmentComponents_intercalate fun name hname => (hnames name hname).1]

theorem components_pathOf (hdir : env.projectDir.toList.getLast? = some '/')
    (file : ProjectFile) : components (env.pathOf file) =
      components env.projectDir ++ file.names.map .normal := by
  rw [pathOf, ← join_of_relative hdir file.isAbsolute_text,
    components_join (env.projectDir_ne_empty hdir) file.isAbsolute_text, ProjectFile.text,
    segmentComponents_intercalate fun name hname => (file.fileName name hname).isName]

theorem localizePath_pathKeys (hdir : env.projectDir.toList.getLast? = some '/')
    (path : List String) : (env.pathKeys hdir).localizePath path =
      env.localizePath (env.projectDir ++ "/".intercalate path) := by
  rw [pathKeys]

theorem globalizePath_pathKeys (hdir : env.projectDir.toList.getLast? = some '/') (key : String) :
    (env.pathKeys hdir).globalizePath key = env.placeOf (env.globalizePath key) := by
  rw [pathKeys]

/-- The files whose keys lead back are those without backslashes in their names. -/
theorem comesBack_pathKeys_iff (hdir : env.projectDir.toList.getLast? = some '/')
    (file : ProjectFile) : (env.pathKeys hdir).ComesBack file.names ↔ '\\' ∉ file.text.toList := by
  rw [PathKeys.ComesBack, globalizePath_pathKeys, localizePath_pathKeys]
  constructor
  · intro hback hbackslash
    obtain ⟨name, hname, hmem⟩ := ProjectFile.exists_backslash_mem hbackslash
    exact (env.names_of_placeOf hdir hback name hname).2 hmem
  · intro hfree
    have hback := ((env.comesBack_iff hdir file).mpr hfree).2
    rw [env.components_pathOf hdir, pathOf, ProjectFile.text] at hback
    rw [placeOf_eq_file_iff, hback]

/-- A project without any files that are checked out. -/
def emptyProject : CheckoutPaths Unit Unit where
  projectDir := "/home/user/game/"
  gitignore _ _ := false
  currentIsGoal := true
  allFiles := []
  goalFiles _ := none
  pendingNormalizedFiles := []
  refFiles _ := none
  toHash := id
  indexHash _ := none
  pathExists dir := dir.isPrefixOf (components "/home/user/game/")
  makes _ := true
  writes _ _ := true
  canonicalizes _ := true
  removes _ := true
  projectDir_exists := isPrefixOf_gameDir

/-- A directory `a` with a file `b`. -/
def slashFile : ProjectFile where
  names := ["a", "b"]
  names_ne_nil := List.cons_ne_nil _ _
  fileName name hname := by
    rcases List.mem_pair.mp hname with rfl | rfl
    · exact ⟨by decide, by decide, by decide, by decide, by decide⟩
    · exact ⟨by decide, by decide, by decide, by decide, by decide⟩

/-- A file with a backslash in its name. -/
def backslashFile : ProjectFile where
  names := ["a\\b"]
  names_ne_nil := List.cons_ne_nil _ _
  fileName name hname := by
    rw [List.mem_singleton.mp hname]
    exact ⟨by decide, by decide, by decide, by decide, by decide⟩

/-- The local path of a file without backslashes leads back to it. -/
theorem keepsFiles_emptyProject :
    emptyProject.localizePath (emptyProject.globalizePath ("res://" ++ "a/b.gd")) =
      "res://" ++ "a/b.gd" :=
  ((emptyProject.localize_globalize_iff (by decide)).2 "a/b.gd" (by decide)).mpr (by decide)

/-- Both files have the local path `res://a/b`. -/
theorem not_keepsFiles_backslashFile :
    slashFile ≠ backslashFile ∧ ¬ emptyProject.KeepsFiles slashFile backslashFile := by
  constructor
  · intro hsame
    exact absurd (congrArg ProjectFile.names hsame) (by decide)
  · rintro ⟨-, -, hother⟩
    rw [pathOf, pathOf, localizePath_append, localizePath_append] at hother
    exact hother (congrArg (join "res://") (by decide))

end CheckoutPaths

end Backstitch
