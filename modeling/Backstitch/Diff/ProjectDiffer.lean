/-
# Diffs of projects

`get_diff` compares all files that changed between two refs.  The type of an instanced node is the
root type of the scene that it instances: that scene may be among the changed files, or is put on
a list to be loaded, with a note of which node of which diff needs it.

A ref is taken as the hash index and the files that are read at it.
-/

import Backstitch.Diff.SceneDiffer
import Backstitch.Document.HashIndex
import Backstitch.Library.StableSort
import Backstitch.Project.Checkout

namespace Backstitch

/-! ## Files at refs -/

/-- The files that are read at a ref. -/
abbrev ProjectFiles := String → Option (FileContent GodotScene)

/-- What is found at a ref: nothing if the document of its branch is not there. -/
structure RefFiles (δ : Type) where
  /-- `is_valid`. -/
  valid : Bool
  /-- `get_hash_index`. -/
  index : Option (String → Option δ)
  contents : Option ProjectFiles

/-- `get_changed_files_between_refs`, path by path. -/
def RefFiles.changedBetween {δ : Type} [DecidableEq δ] (before after : RefFiles δ) :
    Option (String → Option ChangeType) :=
  if after.valid then do
    let newIndex ← after.index
    if before.valid then
      let oldIndex ← before.index
      return fun path => getFileChanges (fun key => oldIndex (String.ofList key))
        (fun key => newIndex (String.ofList key)) path.toList
    else return fun path => (newIndex path).map fun _ => .created
  else none

/-- `get_files_at_ref`.  An empty filter is an error. -/
def RefFiles.filesAt {δ : Type} (ref : RefFiles δ) (filters : Finset String) :
    Option ProjectFiles :=
  if filters = ∅ then none
  else ref.contents.map fun contents path => if path ∈ filters then contents path else none

namespace GodotScene

/-- `get_ext_resource_path`. -/
def getExtResourcePath (scene : GodotScene) (extResourceId : String) : Option String :=
  let extResourceId := trimEndMatches "\")" (trimStartMatches "ExtResource(\"" extResourceId)
  (scene.extResources.lookup extResourceId).map ExternalResourceNode.path

/-- `get_root_node_type`. -/
def getRootNodeType (scene : GodotScene) : Option TypeOrInstance :=
  scene.rootNodeId.bind fun rootNodeId =>
    (scene.nodes.lookup rootNodeId).bind GodotNode.typeOrInstance

end GodotScene

/-! ## Diffs of files -/

structure BinaryResourceDiff where
  path : String
  changeType : ChangeType
  oldResource : Option VariantValue
  newResource : Option VariantValue

/-- The hunks of a text diff are those of the texts of the two contents. -/
structure TextDiff where
  path : String
  changeType : ChangeType
  oldContent : Option (FileContent GodotScene)
  newContent : Option (FileContent GodotScene)

/-- The diff of one file. -/
inductive Diff
  | scene (diff : SceneDiff)
  | textResource (diff : TextResourceDiff)
  | binaryResource (diff : BinaryResourceDiff)
  | text (diff : TextDiff)

namespace Diff

/-- `get_diff_file_path`. -/
def path : Diff → String
  | .scene diff => diff.path
  | .textResource diff => diff.path
  | .binaryResource diff => diff.path
  | .text diff => diff.path

end Diff

structure ProjectDiff where
  fileDiffs : List Diff

/-- A file as a scene, if it is one. -/
def asScene : Option (FileContent GodotScene) → Option GodotScene
  | some (.scene scene) => some scene
  | _ => none

/-- What one run of `get_diff` takes from outside: the changed files in the order in which they
come, and what the diff of each of them takes. -/
structure ProjectDiffEnv where
  order : List (String × ChangeType)
  fileEnv : String → DiffEnv

namespace DiffEnv

variable (env : DiffEnv)

/-- `get_resource`. -/
def getResource (path : String) (isOld : Bool) (content : Option (FileContent GodotScene)) :
    Option VariantValue :=
  content.map fun _ => env.loadedValue path isOld

/-- The diff that a changed file gets, before the types of instanced nodes are looked up.  Outside
stands that it does not return, inside that the file is skipped. -/
def fileDiff (fuel : ℕ) (path : String) (changeType : ChangeType)
    (oldContent newContent : Option (FileContent GodotScene)) : Option (Option Diff) :=
  match oldContent, newContent with
  | some (.scene _), some (.string _) | some (.string _), some (.scene _) =>
      some (some (.text ⟨path, changeType, oldContent, newContent⟩))
  | some (.scene _), _ | _, some (.scene _) =>
      let oldScene := asScene oldContent
      let newScene := asScene newContent
      let resourceType := ((newScene.or oldScene).map fun scene => scene.resourceType).getD ""
      if resourceType = "PackedScene" then
        (env.getSceneDiff fuel path oldScene newScene).map fun diff => some (.scene diff)
      else
        (env.getTextResourceDiff fuel path oldScene newScene).map fun diff =>
          some (.textResource diff)
  | some (.binary _), _ | _, some (.binary _) =>
      some (some (.binaryResource ⟨path, changeType, env.getResource path true oldContent,
        env.getResource path false newContent⟩))
  | some (.string _), _ | _, some (.string _) =>
      some (some (.text ⟨path, changeType, oldContent, newContent⟩))
  | none, none => some none

end DiffEnv

/-! ## Instanced nodes -/

/-- A scene that has to be loaded for the type of a node. -/
structure NeededInstance where
  isNew : Bool
  instancePath : String
  deriving DecidableEq

/-- A node that is not deleted is looked up in the new version. -/
def NodeDiff.isNew (node : NodeDiff) : Bool := node.changeType ≠ .deleted

/-- What the loop over the changed nodes does to one of them: its type is set at once, or a scene
has to be loaded for it.  A scene that is not there makes it panic. -/
def collectInstance (oldScene newScene : Option GodotScene) (oldFiles newFiles : ProjectFiles)
    (node : NodeDiff) : Option (NodeDiff × Option NeededInstance) :=
  match node.nodeType with
  | some (.ofInstance instanceId) =>
      (if node.isNew then newScene else oldScene).map fun scene =>
        match scene.getExtResourcePath instanceId with
        | none => (node, none)
        | some instancePath =>
            match asScene ((if node.isNew then newFiles else oldFiles) instancePath) with
            | some instanced => ({ node with nodeType := instanced.getRootNodeType }, none)
            | none => (node, some ⟨node.isNew, instancePath⟩)
  | _ => some (node, none)

/-- A diff with the scenes that it needs, under the positions of the nodes that need them. -/
structure FileDiff where
  diff : Diff
  needed : HashMap ℕ NeededInstance

/-- The scenes that are needed, under their positions. -/
def neededAt (nodes : List (NodeDiff × Option NeededInstance)) : HashMap ℕ NeededInstance :=
  HashMap.collect (nodes.zipIdx.filterMap fun entry =>
    entry.1.2.map fun needed => (⟨entry.2, needed⟩ : Entry ℕ NeededInstance))

/-- The loop over the changed nodes of a scene diff. -/
def collectInstances (oldScene newScene : Option GodotScene) (oldFiles newFiles : ProjectFiles)
    (diff : Diff) : Option FileDiff :=
  match diff with
  | .scene sceneDiff => do
      let nodes ← sceneDiff.changedNodes.mapM
        (collectInstance oldScene newScene oldFiles newFiles)
      return ⟨.scene { sceneDiff with changedNodes := nodes.map Prod.fst }, neededAt nodes⟩
  | diff => some ⟨diff, ∅⟩

/-- What the loop over the changed files accumulates. -/
structure ProjectDiffState where
  diffs : List Diff := []
  oldScenesToLoad : Finset String := ∅
  newScenesToLoad : Finset String := ∅
  diffIdxToNeededMap : HashMap ℕ (HashMap ℕ NeededInstance) := ∅

/-- The paths of the scenes that a diff needs at one of the refs. -/
def FileDiff.scenesToLoad (fileDiff : FileDiff) (isNew : Bool) : Finset String :=
  fileDiff.needed.keys.biUnion fun idx =>
    ((fileDiff.needed.lookup idx).filter fun needed => needed.isNew = isNew).elim ∅
      fun needed => {needed.instancePath}

/-- The end of one round: what is needed is noted under the number of diffs so far. -/
def ProjectDiffState.push (state : ProjectDiffState) (fileDiff : FileDiff) : ProjectDiffState where
  diffs := state.diffs ++ [fileDiff.diff]
  oldScenesToLoad := state.oldScenesToLoad ∪ fileDiff.scenesToLoad false
  newScenesToLoad := state.newScenesToLoad ∪ fileDiff.scenesToLoad true
  diffIdxToNeededMap :=
    if fileDiff.needed = ∅ then state.diffIdxToNeededMap
    else state.diffIdxToNeededMap.insert state.diffs.length fileDiff.needed

/-- The type of a node that needs a scene.  What is needed at the new ref is looked up among the
scenes of the old one, and the other way round. -/
def resolveNode (oldNeededScenes newNeededScenes : ProjectFiles) (needed : Option NeededInstance)
    (node : NodeDiff) : NodeDiff :=
  match needed with
  | none => node
  | some needed =>
      let contents := if needed.isNew then oldNeededScenes else newNeededScenes
      match asScene (contents needed.instancePath) with
      | some instanced => { node with nodeType := instanced.getRootNodeType }
      | none => node

/-- The types of the nodes of one diff.  No node is needed twice, so that the order of the table
does not matter. -/
def resolveDiff (oldNeededScenes newNeededScenes : ProjectFiles)
    (needed : HashMap ℕ NeededInstance) : Diff → Diff
  | .scene sceneDiff => .scene { sceneDiff with
      changedNodes := sceneDiff.changedNodes.mapIdx fun idx node =>
        resolveNode oldNeededScenes newNeededScenes (needed.lookup idx) node }
  | diff => diff

namespace ProjectDiffState

/-- The loop over the table. -/
def resolve (state : ProjectDiffState) (oldNeededScenes newNeededScenes : ProjectFiles) :
    List Diff :=
  state.diffs.mapIdx fun idx diff =>
    match state.diffIdxToNeededMap.lookup idx with
    | some needed => resolveDiff oldNeededScenes newNeededScenes needed diff
    | none => diff

end ProjectDiffState

/-! ## Diffs of projects -/

namespace ProjectDiffEnv

variable (env : ProjectDiffEnv)

/-- One round of the loop over the changed files. -/
def diffFile (fuel : ℕ) (oldFiles newFiles : ProjectFiles) (state : ProjectDiffState)
    (changed : String × ChangeType) : Option ProjectDiffState := do
  let oldContent := oldFiles changed.1
  let newContent := newFiles changed.1
  match ← (env.fileEnv changed.1).fileDiff fuel changed.1 changed.2 oldContent newContent with
  | none => return state
  | some diff =>
      let fileDiff ← collectInstances (asScene oldContent) (asScene newContent) oldFiles newFiles
        diff
      return state.push fileDiff

/-- The loop over the changed files, and what follows it. -/
def diffFiles {δ : Type} (fuel : ℕ) (before after : RefFiles δ)
    (oldFiles newFiles : ProjectFiles) : Option ProjectDiff := do
  let state ← env.order.foldlM (env.diffFile fuel oldFiles newFiles) {}
  let oldNeededScenes := (before.filesAt state.oldScenesToLoad).getD fun _ => none
  let newNeededScenes := (after.filesAt state.newScenesToLoad).getD fun _ => none
  return ⟨sortByKey Diff.path (state.resolve oldNeededScenes newNeededScenes)⟩

/-- `get_diff`.  Outside stands that it does not return, inside that there is no diff. -/
def getDiff {ρ : Type} {δ : Type} [DecidableEq ρ] [DecidableEq δ] (fuel : ℕ)
    (files : ρ → RefFiles δ) (before after : ρ) : Option (Option ProjectDiff) :=
  if before = after then some none
  else
    match (files before).changedBetween (files after) with
    | none => some none
    | some _ =>
        let changedFilter := (env.order.map Prod.fst).toFinset
        if env.order = [] then some none
        else
          match (files after).filesAt changedFilter, (files before).filesAt changedFilter with
          | some newFiles, some oldFiles =>
              (env.diffFiles fuel (files before) (files after) oldFiles newFiles).map some
          | _, _ => some none

end ProjectDiffEnv

end Backstitch
