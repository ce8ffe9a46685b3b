/-
# Diffs of scenes and resources

`get_scene_diff` compares two scenes node by node, `get_text_resource_diff` two resources
sub-resource by sub-resource, and both compare what they find property by property.  Either scene
may be absent.

Ids and names are collected in sets, which are gone through in an order of their own; the orders
are taken from outside.
-/

import Backstitch.Diff.PropChanges
import Backstitch.Document.BranchDocument

namespace Backstitch

/-! ## Diffs -/

/-- What a diff shows of a value. -/
inductive VariantValue
  | variant (text : String)
  | defaultValue (typeOrInstance : Option TypeOrInstance) (prop : String)
  | lazyLoadData (originalPath loadPath : String)
  | script (path : String)
  deriving DecidableEq

structure PropertyDiff where
  name : String
  changeType : ChangeType
  oldValue : Option VariantValue
  newValue : Option VariantValue
  deriving DecidableEq

structure NodeDiff where
  changeType : ChangeType
  nodePath : String
  nodeType : Option TypeOrInstance
  changedProperties : HashMap String PropertyDiff

structure SubResourceDiff where
  changeType : ChangeType
  subResourceId : String
  resourceType : String
  scriptClass : Option String
  changedProperties : HashMap String PropertyDiff

structure SceneDiff where
  path : String
  changeType : ChangeType
  changedNodes : List NodeDiff

structure TextResourceDiff where
  path : String
  resourceType : String
  changeType : ChangeType
  changedSubResources : List SubResourceDiff
  changedMainResource : Option SubResourceDiff

/-- By which side something is on. -/
def changeTypeOf {ν : Type} (old new : Option ν) : ChangeType :=
  match old, new with
  | none, some _ => .created
  | some _, none => .deleted
  | _, _ => .modified

/-! ## Nodes and sub-resources -/

/-- The trait of what has properties. -/
class PropertyGetter (ν : Type) where
  getProperties : ν → Properties
  getTypeOrInstance : ν → Option TypeOrInstance

export PropertyGetter (getProperties getTypeOrInstance)

instance : PropertyGetter GodotNode where
  getProperties := GodotNode.properties
  getTypeOrInstance := GodotNode.typeOrInstance

instance : PropertyGetter SubResourceNode where
  getProperties := SubResourceNode.properties
  getTypeOrInstance node := some (.ofType node.resourceType)

/-- `to_string`. -/
def TypeOrInstance.toText : TypeOrInstance → String
  | .ofType typeName => typeName
  | .ofInstance instanceId => instanceId

section Names

variable {ν : Type} [PropertyGetter ν]

/-- The names of the properties of a node that may not be there. -/
def propNames (node : Option ν) : Finset String :=
  node.elim ∅ fun node => (getProperties node).keys

/-- The names that a diff of two nodes collects. -/
def collectedProps (oldNode newNode : Option ν) : Finset String :=
  propNames oldNode ∪ propNames newNode

/-- `get_varstr_or_default`.  Nothing is returned if the text cannot be read. -/
def getVarstrOrDefault (prop : String) (node : Option ν) : Option (Option VariantStrValue) :=
  match node with
  | none => some none
  | some node =>
      match (getProperties node).lookup prop with
      | some property => (getVarstrValue property.value).map some
      | none => some (some (.defaultValue (getTypeOrInstance node) prop))

end Names

/-- The scene that says what the path of a node is. -/
def pathScene {ν : Type} (oldNode newNode : Option ν) (oldScene newScene : Option GodotScene) :
    Option GodotScene :=
  match oldNode, newNode with
  | none, some _ => newScene
  | some _, none => oldScene
  | _, _ => newScene

/-- The node ids that `get_ids_from_scene` collects from both scenes. -/
def collectedNodeIds (oldScene newScene : Option GodotScene) : Finset NodeId :=
  oldScene.elim ∅ (fun scene => scene.nodes.keys) ∪
    newScene.elim ∅ fun scene => scene.nodes.keys

/-- The ids of sub-resources that `get_ids_from_scene` collects from both scenes. -/
def collectedSubResourceIds (oldScene newScene : Option GodotScene) : Finset String :=
  oldScene.elim ∅ (fun scene => scene.subResources.keys) ∪
    newScene.elim ∅ fun scene => scene.subResources.keys

/-! ## Comparing -/

/-- What one diff takes from outside: the URI schemes of the two refs, which only valid refs
have, and the orders in which it goes through sets and maps. -/
structure DiffEnv where
  before : Option String
  after : Option String
  /-- The properties of the sub-resources of the new scene. -/
  propOrders : PropOrders
  nodeIds : List NodeId
  subResourceIds : List String
  nodeProps : NodeId → List String
  subResourceProps : String → List String
  mainResourceProps : List String

/-- `start_load_ext_resource`. -/
def startLoadExtResource (path : String) (scheme : Option String) : Except String String :=
  match scheme with
  | none => .error "Invalid history ref path"
  | some scheme => .ok (scheme ++ "-" ++ path)

/-- A loop that pushes what is found for every id.  Nothing is returned if one call does not
return. -/
def collectDiffs {ι δ : Type} (diffOf : ι → Option (Option δ)) : List ι → Option (List δ)
  | [] => some []
  | id :: ids =>
      match diffOf id with
      | none => none
      | some none => collectDiffs diffOf ids
      | some (some diff) => (collectDiffs diffOf ids).map (diff :: ·)

namespace DiffEnv

variable (env : DiffEnv)

/-- The part of `get_prop_value` that loads a resource. -/
def loadedValue (path : String) (isOld : Bool) : VariantValue :=
  match startLoadExtResource path (if isOld then env.before else env.after) with
  | .ok loadPath => .lazyLoadData path loadPath
  | .error e => .variant ("\"<ExtResource " ++ path ++ " load failed (" ++ e ++ ")>\"")

/-- `get_prop_value`. -/
def getPropValue (propValue : VariantStrValue) (scene : Option GodotScene) (isOld : Bool) :
    VariantValue :=
  match propValue with
  | .variant variant => .variant variant
  | .subResourceId id => .variant ("\"<SubResource " ++ id ++ " changed>\"")
  | .resourcePath resourcePath => env.loadedValue resourcePath isOld
  | .extResourceId id =>
      match scene.bind fun scene => (scene.extResources.lookup id).map (·.path) with
      | none => .variant ("\"<ExtResource " ++ id ++ " not found>\"")
      | some path =>
          if (stripSuffix ".gd" path).isSome || (stripSuffix ".cs" path).isSome then .script path
          else env.loadedValue path isOld
  | .defaultValue typeOrInstance prop => .defaultValue typeOrInstance prop

section Nodes

variable {ν : Type} [PropertyGetter ν]

/-- The end of `get_property_diff`. -/
def propertyDiffOf (prop : String) (oldNode newNode : Option ν)
    (oldScene newScene : Option GodotScene) (oldValue newValue : Option VariantStrValue) :
    PropertyDiff where
  name := prop
  changeType := changeTypeOf oldNode newNode
  oldValue := oldValue.map fun value => env.getPropValue value oldScene true
  newValue := newValue.map fun value => env.getPropValue value newScene false

/-- `get_property_diff`. -/
def getPropertyDiff (fuel : ℕ) (prop : String) (oldNode newNode : Option ν)
    (oldScene newScene : Option GodotScene) : Option (Option PropertyDiff) :=
  if newNode.isNone && oldNode.isNone then some none
  else do
    let oldValue ← getVarstrOrDefault prop oldNode
    let newValue ← getVarstrOrDefault prop newNode
    let changed ← didPropChange env.propOrders fuel oldValue newValue oldScene newScene
    return if changed then
      some (env.propertyDiffOf prop oldNode newNode oldScene newScene oldValue newValue)
    else none

/-- The properties that a diff of two nodes collects in a map. -/
def changedProperties (fuel : ℕ) (props : List String) (oldNode newNode : Option ν)
    (oldScene newScene : Option GodotScene) : Option (HashMap String PropertyDiff) :=
  (collectDiffs (fun prop =>
    (env.getPropertyDiff fuel prop oldNode newNode oldScene newScene).map
      (Option.map fun diff => (⟨prop, diff⟩ : Entry String PropertyDiff))) props).map
    HashMap.collect

/-- `get_node_diff`.  A node without a change is left out. -/
def getNodeDiff (fuel : ℕ) (nodeId : NodeId) (props : List String) (oldNode newNode : Option ν)
    (oldScene newScene : Option GodotScene) : Option (Option NodeDiff) :=
  if oldNode.isNone && newNode.isNone then some none
  else
    let oldClassName := oldNode.bind getTypeOrInstance
    let newClassName := newNode.bind getTypeOrInstance
    match env.changedProperties fuel props oldNode newNode oldScene newScene with
    | none => none
    | some changedProperties =>
        if oldNode.isSome && newNode.isSome && decide (changedProperties = ∅) &&
            decide (oldClassName = newClassName) then some none
        else
          match pathScene oldNode newNode oldScene newScene with
          | none => some none
          | some scene =>
              match scene.getNodePath fuel nodeId with
              | .done nodePath => some (some {
                  changeType := changeTypeOf oldNode newNode
                  nodePath := nodePath
                  nodeType := newClassName.or oldClassName
                  changedProperties := changedProperties })
              | _ => none

end Nodes

/-- `get_sub_resource_diff`. -/
def getSubResourceDiff (fuel : ℕ) (subResourceId : String) (props : List String)
    (oldNode newNode : Option SubResourceNode) (oldScene newScene : Option GodotScene) :
    Option (Option SubResourceDiff) :=
  if oldNode.isNone && newNode.isNone then some none
  else
    let oldClassName := (oldNode.bind getTypeOrInstance).map TypeOrInstance.toText
    let newClassName := (newNode.bind getTypeOrInstance).map TypeOrInstance.toText
    (env.changedProperties fuel props oldNode newNode oldScene newScene).map
      fun changedProperties => some {
        changeType := changeTypeOf oldNode newNode
        subResourceId := subResourceId
        resourceType := (oldClassName.or newClassName).getD ""
        scriptClass := none
        changedProperties := changedProperties }

/-- `get_scene_diff`. -/
def getSceneDiff (fuel : ℕ) (path : String) (oldScene newScene : Option GodotScene) :
    Option SceneDiff := do
  let nodeDiffs ← collectDiffs (fun nodeId =>
    env.getNodeDiff fuel nodeId (env.nodeProps nodeId)
      (oldScene.bind fun scene => scene.nodes.lookup nodeId)
      (newScene.bind fun scene => scene.nodes.lookup nodeId) oldScene newScene) env.nodeIds
  return {
    path := path
    changeType := changeTypeOf oldScene newScene
    changedNodes := nodeDiffs }

/-- `get_text_resource_diff`. -/
def getTextResourceDiff (fuel : ℕ) (path : String) (oldScene newScene : Option GodotScene) :
    Option TextResourceDiff := do
  let resourceType := match newScene, oldScene with
    | some scene, _ => scene.resourceType
    | none, some scene => scene.resourceType
    | none, none => ""
  let scriptClass := match newScene, oldScene with
    | some scene, _ => scene.scriptClass
    | none, some scene => scene.scriptClass
    | none, none => none
  let changedSubResources ← collectDiffs (fun subResourceId =>
    env.getSubResourceDiff fuel subResourceId (env.subResourceProps subResourceId)
      (oldScene.bind fun scene => scene.subResources.lookup subResourceId)
      (newScene.bind fun scene => scene.subResources.lookup subResourceId) oldScene newScene)
    env.subResourceIds
  let changedMainResource ← env.getSubResourceDiff fuel "" env.mainResourceProps
    (oldScene.bind fun scene => scene.mainResource)
    (newScene.bind fun scene => scene.mainResource) oldScene newScene
  return {
    path := path
    resourceType := resourceType
    changeType := changeTypeOf oldScene newScene
    changedSubResources := changedSubResources
    changedMainResource := changedMainResource.map fun diff =>
      { diff with scriptClass := scriptClass } }

end DiffEnv

end Backstitch
