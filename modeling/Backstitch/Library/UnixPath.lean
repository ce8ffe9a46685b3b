/-
# Paths of a Unix file system

A path is text; its components are what lies between the slashes.  Joining replaces the
base where the other path is absolute, the test for a prefix compares components as they
are written, and the lexical normal form resolves `.` and `..`.
-/

import Backstitch.Library.RustText
import Mathlib.Data.List.Basic
import Mathlib.Data.List.Induction

namespace Backstitch

/-- `std::path::Component`. -/
inductive PathComponent
  | rootDir
  | curDir
  | parentDir
  | normal (name : String)
  deriving DecidableEq

/-- The name that a component is. -/
def PathComponent.name? : PathComponent → Option String
  | .normal name => some name
  | _ => none

theorem PathComponent.name?_eq_some_iff {component : PathComponent} {name : String} :
    component.name? = some name ↔ component = .normal name := by
  cases component <;> simp [PathComponent.name?]

theorem PathComponent.mapM_name?_eq_some_iff {rest : List PathComponent} {names : List String} :
    rest.mapM PathComponent.name? = some names ↔ rest = names.map .normal := by
  induction rest generalizing names with
  | nil => cases names <;> simp
  | cons component rest ih =>
      rw [List.mapM_cons]
      simp only [Option.bind_eq_bind, Option.bind_eq_some_iff, Option.pure_def,
        Option.some.injEq, PathComponent.name?_eq_some_iff, ih]
      constructor
      · rintro ⟨name, hname, tail, hrest, rfl⟩
        rw [hname, hrest, List.map_cons]
      · intro hcons
        cases names with
        | nil => nomatch hcons
        | cons name names =>
            obtain ⟨hname, hrest⟩ := List.cons.inj hcons
            exact ⟨name, hname, names, hrest, rfl⟩

namespace UnixPath

/-! ## Components -/

/-- `Path::is_absolute`. -/
def isAbsolute (path : String) : Bool :=
  path.toList.head? = some '/'

/-- What a segment says in the middle of a path: nothing where it is empty or `.`. -/
def toComponent (segment : String) : Option PathComponent :=
  if segment = "" ∨ segment = "." then none
  else if segment = ".." then some .parentDir
  else some (.normal segment)

/-- What a path adds to the one it is joined to. -/
def segmentComponents (path : String) : List PathComponent :=
  (splitAtChar '/' path).filterMap toComponent

/-- The component that only the start of a path has. -/
def startComponents (path : String) : List PathComponent :=
  if isAbsolute path then [.rootDir]
  else if (splitAtChar '/' path).head? = some "." then [.curDir]
  else []

/-- `Path::components`. -/
def components (path : String) : List PathComponent :=
  startComponents path ++ segmentComponents path

/-- `Path::join`: an absolute path replaces the base. -/
def join (base path : String) : String :=
  if isAbsolute path then path
  else if base = "" ∨ base.toList.getLast? = some '/' then base ++ path
  else base ++ "/" ++ path

/-- `replace("\\", "/")`. -/
def slashes (text : String) : String :=
  String.ofList (text.toList.map fun char => if char = '\\' then '/' else char)

/-- `Path::starts_with`. -/
def startsWith (path base : String) : Bool :=
  components base <+: components path

/-- `Path::file_name`. -/
def fileName (path : String) : Option String :=
  match (components path).getLast? with
  | some (.normal name) => some name
  | _ => none

theorem rootDir_not_mem_segmentComponents (path : String) :
    PathComponent.rootDir ∉ segmentComponents path := by
  intro hmem
  obtain ⟨segment, -, hroot⟩ := List.mem_filterMap.mp hmem
  rw [toComponent] at hroot
  split_ifs at hroot <;> cases hroot

/-- Only the first component can be the root. -/
theorem rootDir_not_mem_drop_components (path : String) (count : ℕ) :
    PathComponent.rootDir ∉ (components path).drop (count + 1) := by
  have hstart : (startComponents path).length ≤ 1 := by
    rw [startComponents]
    split_ifs <;> simp
  intro hmem
  rw [components, List.drop_append, List.drop_eq_nil_of_le (by omega), List.nil_append] at hmem
  exact rootDir_not_mem_segmentComponents path (List.mem_of_mem_drop hmem)

/-- The segments on both sides of a slash. -/
theorem segmentComponents_append (base path : String) :
    segmentComponents (base ++ "/" ++ path) =
      segmentComponents base ++ segmentComponents path := by
  rw [segmentComponents, show ("/" : String) = String.singleton '/' from rfl,
    splitAtChar_append, List.filterMap_append, segmentComponents, segmentComponents]

/-- A slash at the end adds no component. -/
theorem segmentComponents_append_slash (base : String) :
    segmentComponents (base ++ "/") = segmentComponents base := by
  have happend := segmentComponents_append base ""
  rw [String.append_empty] at happend
  rw [happend]
  simp [segmentComponents, splitAtChar, toComponent]

theorem splitAtChar_ne_nil (separator : Char) (text : String) :
    splitAtChar separator text ≠ [] := by
  simp [splitAtChar]

/-- What follows a slash does not change how a path starts. -/
theorem startComponents_append (base path : String) :
    startComponents (base ++ "/" ++ path) = startComponents (base ++ "/") := by
  have habsolute : isAbsolute (base ++ "/" ++ path) = isAbsolute (base ++ "/") := by
    have hlist : (base ++ "/" ++ path).toList = (base ++ "/").toList ++ path.toList :=
      String.toList_append
    rw [isAbsolute, isAbsolute, hlist, List.head?_append_of_ne_nil _ (by simp)]
  have hempty := splitAtChar_append '/' base ""
  rw [String.append_empty] at hempty
  rw [startComponents, startComponents, habsolute,
    show ("/" : String) = String.singleton '/' from rfl, hempty, splitAtChar_append,
    List.head?_append_of_ne_nil _ (splitAtChar_ne_nil '/' base),
    List.head?_append_of_ne_nil _ (splitAtChar_ne_nil '/' base)]

theorem startComponents_append_slash {base : String} (hbase : base ≠ "") :
    startComponents (base ++ "/") = startComponents base := by
  have habsolute : isAbsolute (base ++ "/") = isAbsolute base := by
    rw [isAbsolute, isAbsolute, String.toList_append,
      List.head?_append_of_ne_nil _ (fun hnil => hbase (String.toList_eq_nil_iff.mp hnil))]
  have hempty := splitAtChar_append '/' base ""
  rw [String.append_empty] at hempty
  rw [startComponents, startComponents, habsolute,
    show ("/" : String) = String.singleton '/' from rfl, hempty,
    List.head?_append_of_ne_nil _ (splitAtChar_ne_nil '/' base)]

/-- **A relative path adds its own components to the base.** -/
theorem components_join {base path : String} (hbase : base ≠ "")
    (hrelative : isAbsolute path = false) :
    components (join base path) = components base ++ segmentComponents path := by
  rw [join, if_neg (by simp [hrelative])]
  by_cases hslash : base.toList.getLast? = some '/'
  · obtain ⟨front, rfl⟩ : ∃ front, base = front ++ "/" := by
      obtain ⟨front, hfront⟩ := List.getLast?_eq_some_iff.mp hslash
      refine ⟨String.ofList front, ?_⟩
      rw [← String.toList_inj, hfront]
      simp
    rw [if_pos (.inr hslash), components, startComponents_append, segmentComponents_append,
      components, segmentComponents_append_slash, List.append_assoc]
  · rw [if_neg (by simp [hbase, hslash]), components, startComponents_append,
      startComponents_append_slash hbase, segmentComponents_append, components,
      List.append_assoc]

end UnixPath

/-! ## Lexical normal forms -/

/-- A path without `.`, and without `..` below a name. -/
structure LexicalPath where
  rooted : Bool
  /-- The `..` at the start. -/
  ups : ℕ
  names : List String
  deriving DecidableEq

namespace LexicalPath

/-- The directory that a relative path starts from. -/
def here : LexicalPath := ⟨false, 0, []⟩

/-- One `..`: the root is its own parent. -/
def up (path : LexicalPath) : LexicalPath :=
  if path.names ≠ [] then { path with names := path.names.dropLast }
  else if path.rooted then path
  else { path with ups := path.ups + 1 }

def enter (path : LexicalPath) : PathComponent → LexicalPath
  | .rootDir => ⟨true, 0, []⟩
  | .curDir => path
  | .parentDir => path.up
  | .normal name => { path with names := path.names ++ [name] }

def follow (path : LexicalPath) (components : List PathComponent) : LexicalPath :=
  components.foldl enter path

/-- The lexical normal form. -/
def normalize (components : List PathComponent) : LexicalPath :=
  here.follow components

/-- Strictly inside a directory. -/
def Inside (path dir : LexicalPath) : Prop :=
  path.rooted = dir.rooted ∧ path.ups = dir.ups ∧
    ∃ name rest, path.names = dir.names ++ name :: rest

/-- What a relative path leads to from a directory. -/
def goto (dir relative : LexicalPath) : LexicalPath where
  rooted := dir.rooted
  ups := if dir.rooted then dir.ups else dir.ups + (relative.ups - dir.names.length)
  names := dir.names.take (dir.names.length - relative.ups) ++ relative.names

/-- A relative path stays inside a directory, or comes back to it under the names of the
directories that it left, and goes further. -/
def Stays (dir relative : LexicalPath) : Prop :=
  (dir.rooted ∨ relative.ups ≤ dir.names.length) ∧
    ∃ name rest, relative.names =
      dir.names.drop (dir.names.length - relative.ups) ++ name :: rest

theorem follow_append (path : LexicalPath) (before after : List PathComponent) :
    path.follow (before ++ after) = (path.follow before).follow after :=
  List.foldl_append

/-- A path with a root stays below it. -/
theorem rooted_follow {path : LexicalPath} (hrooted : path.rooted = true)
    (components : List PathComponent) : (path.follow components).rooted = true := by
  induction components generalizing path with
  | nil => exact hrooted
  | cons component rest ih =>
      apply ih
      cases component with
      | rootDir => rfl
      | curDir | normal _ => exact hrooted
      | parentDir =>
          rw [enter, up]
          split_ifs <;> exact hrooted

theorem rooted_normalize {components : List PathComponent}
    (hroot : PathComponent.rootDir ∈ components) : (normalize components).rooted = true := by
  obtain ⟨before, after, rfl⟩ := List.append_of_mem hroot
  rw [normalize, follow_append]
  exact rooted_follow rfl after

theorem rooted_enter {path : LexicalPath} (hrooted : path.rooted = false)
    {component : PathComponent} (hcomponent : component ≠ .rootDir) :
    (path.enter component).rooted = false := by
  cases component with
  | rootDir => exact absurd rfl hcomponent
  | curDir | normal _ => exact hrooted
  | parentDir =>
      rw [enter, up]
      split_ifs <;> exact hrooted

/-- One `..` more, before any name. -/
theorem goto_up (dir : LexicalPath) {relative : LexicalPath} (hnames : relative.names = []) :
    (dir.goto relative).up = dir.goto { relative with ups := relative.ups + 1 } := by
  rw [up]
  by_cases hleft : relative.ups < dir.names.length
  · have hdir : dir.names.take (dir.names.length - relative.ups) ≠ [] := by
      rw [Ne, List.take_eq_nil_iff, not_or]
      exact ⟨by omega, List.ne_nil_of_length_pos (by omega)⟩
    have hlast : (dir.names.take (dir.names.length - relative.ups)).dropLast =
        dir.names.take (dir.names.length - (relative.ups + 1)) := by
      rw [List.dropLast_eq_take, List.take_take, List.length_take]
      congr 1
      omega
    rw [if_pos (by simpa [goto, hnames] using hdir)]
    simp only [goto, hnames, List.append_nil, hlast]
    congr 2
    omega
  · have hdir : dir.names.take (dir.names.length - relative.ups) = [] := by
      rw [show dir.names.length - relative.ups = 0 by omega, List.take_zero]
    have hnext : dir.names.take (dir.names.length - (relative.ups + 1)) = [] := by
      rw [show dir.names.length - (relative.ups + 1) = 0 by omega, List.take_zero]
    rw [if_neg (by simp [goto, hnames, hdir])]
    by_cases hrooted : dir.rooted
    · simp [goto, hnames, hdir, hnext, hrooted]
    · simp only [goto, hnames, hdir, hnext, hrooted, Bool.false_eq_true, if_false,
        List.append_nil, LexicalPath.mk.injEq, true_and, and_true]
      omega

/-- One component more. -/
theorem goto_enter (dir relative : LexicalPath) (hrelative : relative.rooted = false)
    {component : PathComponent} (hcomponent : component ≠ .rootDir) :
    (dir.goto relative).enter component = dir.goto (relative.enter component) := by
  cases component with
  | rootDir => exact absurd rfl hcomponent
  | curDir => rfl
  | normal name => simp [goto, enter]
  | parentDir =>
      rw [enter, enter]
      by_cases hnames : relative.names = []
      · have hup : relative.up = { relative with ups := relative.ups + 1 } := by
          rw [up, if_neg (not_not.mpr hnames), hrelative, if_neg Bool.false_ne_true]
        rw [hup, goto_up dir hnames]
      · have hup : relative.up = { relative with names := relative.names.dropLast } := by
          rw [up, if_pos hnames]
        rw [hup, up, if_pos (by simp [goto, hnames])]
        simp [goto, List.dropLast_append_of_ne_nil hnames]

/-- **Following a relative path is going where its normal form leads.** -/
theorem follow_eq_goto (dir : LexicalPath) {relative : List PathComponent}
    (hrelative : PathComponent.rootDir ∉ relative) :
    dir.follow relative = dir.goto (normalize relative) := by
  have hkeeps : (normalize relative).rooted = false ∧
      dir.follow relative = dir.goto (normalize relative) := by
    induction relative using List.reverseRecOn with
    | nil => exact ⟨rfl, by simp [follow, normalize, goto, here]⟩
    | append_singleton front component ih =>
        rw [List.mem_append, List.mem_singleton, not_or] at hrelative
        obtain ⟨hrooted, hfollow⟩ := ih hrelative.1
        have hcomponent : component ≠ .rootDir := Ne.symm hrelative.2
        have hnormal : normalize (front ++ [component]) = (normalize front).enter component :=
          follow_append here front [component]
        have hdir : dir.follow (front ++ [component]) = (dir.follow front).enter component :=
          follow_append dir front [component]
        rw [hnormal, hdir, hfollow, goto_enter dir _ hrooted hcomponent]
        exact ⟨rooted_enter hrooted hcomponent, rfl⟩
  exact hkeeps.2

/-- **Exactly the relative paths that stay lead strictly inside.** -/
theorem inside_goto_iff (dir relative : LexicalPath) :
    (dir.goto relative).Inside dir ↔ dir.Stays relative := by
  have hups : (dir.goto relative).ups = dir.ups ↔
      dir.rooted ∨ relative.ups ≤ dir.names.length := by
    by_cases hrooted : dir.rooted
    · simp [goto, hrooted]
    · simp only [goto, hrooted, Bool.false_eq_true, if_false, false_or]
      omega
  have hnames (name : String) (rest : List String) :
      (dir.goto relative).names = dir.names ++ name :: rest ↔
        relative.names =
          dir.names.drop (dir.names.length - relative.ups) ++ name :: rest := by
    have hsplit := List.take_append_drop (dir.names.length - relative.ups) dir.names
    calc (dir.goto relative).names = dir.names ++ name :: rest
        ↔ dir.names.take (dir.names.length - relative.ups) ++ relative.names =
            dir.names.take (dir.names.length - relative.ups) ++
              (dir.names.drop (dir.names.length - relative.ups) ++ name :: rest) := by
          rw [← List.append_assoc, hsplit]
          exact Iff.rfl
      _ ↔ relative.names =
          dir.names.drop (dir.names.length - relative.ups) ++ name :: rest :=
          List.append_right_inj _
  rw [Inside, Stays, hups]
  simp only [hnames]
  exact and_iff_right rfl

end LexicalPath

end Backstitch
