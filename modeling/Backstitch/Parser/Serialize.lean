/-
# Writing a scene

`serialize` turns a scene into its text: a header, the resources by index, the
nodes in depth-first order along the child lists, the connections in the order
their ends were visited, and the editable instances.

Every map of the scene is iterated once, in an order its value does not
determine, and then sorted.  `IterationOrders` is one choice of all those
orders.  Path walks and the recursion over the child lists are not bounded by
anything in the scene, so both take fuel.
-/

import Backstitch.Library.StableSort
import Backstitch.Parser.Scene
import Mathlib.Data.Prod.Lex
import Mathlib.Data.String.Basic

namespace Backstitch

/-! ## Pieces of text -/

/-- A value between double quotes. -/
def quoted (value : String) : String := "\"" ++ value ++ "\""

/-- `serialize_int32_array`. -/
def serializeInt32Array (array : List Int32) : String :=
  "PackedInt32Array(" ++ ", ".intercalate (array.map displayI32) ++ ")"

/-- An attribute of a section heading: its key and the exact text of its value. -/
abbrev Attribute := String × String

/-- An attribute that is written only when the value is there. -/
def optionalAttribute (key : String) (value : Option String) : List Attribute :=
  value.toList.map fun value => (key, value)

-- Godot writes `binds= [...]`, and the source follows it.
def attributeText (item : Attribute) : String :=
  " " ++ item.1 ++ (if item.1 = "binds" then "= " else "=") ++ item.2

def headingText (identifier : String) (attributes : List Attribute) : String :=
  "[" ++ identifier ++ String.join (attributes.map attributeText) ++ "]\n"

def propertyText (property : Entry String OrderedProperty) : String :=
  property.1 ++ " = " ++ property.2.value ++ "\n"

/-- The property lines of a section, sorted by the order of each property. -/
def propertiesText (order : List (Entry String OrderedProperty)) : String :=
  String.join ((sortByKey (fun property => property.2.order) order).map propertyText)

/-! ## Iteration orders -/

/-- The orders in which one call of `serialize` iterates the maps of a scene.
The properties of a node are found under the key that the node was reached by. -/
structure IterationOrders where
  extResources : List (Entry String ExternalResourceNode)
  subResources : List (Entry String SubResourceNode)
  subResourceProperties : String → List (Entry String OrderedProperty)
  mainResourceProperties : List (Entry String OrderedProperty)
  nodeProperties : NodeId → List (Entry String OrderedProperty)
  connections : List (Entry String GodotConnection)

/-- The orders are ones that the maps of this scene can be iterated in. -/
structure IterationOrders.Of (orders : IterationOrders) (scene : GodotScene) : Prop where
  extResources : scene.extResources.Iterates orders.extResources
  subResources : scene.subResources.Iterates orders.subResources
  subResourceProperties : ∀ key resource, scene.subResources.lookup key = some resource →
    resource.properties.Iterates (orders.subResourceProperties key)
  mainResourceProperties : ∀ resource, scene.mainResource = some resource →
    resource.properties.Iterates orders.mainResourceProperties
  nodeProperties : ∀ key node, scene.nodes.lookup key = some node →
    node.properties.Iterates (orders.nodeProperties key)
  connections : scene.connections.Iterates orders.connections

/-- Some orders are there for every scene. -/
theorem IterationOrders.exists_of (scene : GodotScene) :
    ∃ orders : IterationOrders, orders.Of scene := by
  choose anyOrder hanyOrder using fun map : Properties => map.exists_iterates
  obtain ⟨extResources, hextResources⟩ := scene.extResources.exists_iterates
  obtain ⟨subResources, hsubResources⟩ := scene.subResources.exists_iterates
  obtain ⟨connections, hconnections⟩ := scene.connections.exists_iterates
  refine ⟨⟨extResources, subResources,
    fun key => ((scene.subResources.lookup key).map fun resource =>
      anyOrder resource.properties).getD [],
    (scene.mainResource.map fun resource => anyOrder resource.properties).getD [],
    fun key => ((scene.nodes.lookup key).map fun node => anyOrder node.properties).getD [],
    connections⟩, hextResources, hsubResources, ?_, ?_, ?_, hconnections⟩
  · intro key resource hresource
    simp [hresource, hanyOrder]
  · intro resource hresource
    simp [hresource, hanyOrder]
  · intro key node hnode
    simp [hnode, hanyOrder]

namespace GodotScene

variable (scene : GodotScene)

/-! ## Header and resources -/

def headerIdentifier : String :=
  if scene.resourceType ≠ "PackedScene" then "gd_resource" else "gd_scene"

def headerAttributes : List Attribute :=
  (if scene.resourceType ≠ "PackedScene" then
    ("type", quoted scene.resourceType) ::
      optionalAttribute "script_class" (scene.scriptClass.map quoted)
  else []) ++
  (if scene.loadSteps ≠ 0 then [("load_steps", displayInteger scene.loadSteps)] else []) ++
  [("format", displayInteger scene.format), ("uid", quoted scene.uid)]

/-- `path` is what the caller wants written for the resource's own path. -/
def extResourceAttributes (path : String → String) (removeUid : Bool)
    (resource : ExternalResourceNode) : List Attribute :=
  ("type", quoted resource.resourceType) ::
    (if removeUid then [] else optionalAttribute "uid" (resource.uid.map quoted)) ++
    [("path", quoted (path resource.path)), ("id", quoted resource.id)]

def subResourceAttributes (resource : SubResourceNode) : List Attribute :=
  [("type", quoted resource.resourceType), ("id", quoted resource.id)]

def subResourceText (orders : IterationOrders) (entry : Entry String SubResourceNode) :
    String :=
  headingText "sub_resource" (subResourceAttributes entry.2) ++
    propertiesText (orders.subResourceProperties entry.1) ++ "\n"

/-- Everything before the main resource or the nodes. -/
def resourcesText (path : String → String) (removeUid : Bool) (orders : IterationOrders) :
    String :=
  headingText scene.headerIdentifier scene.headerAttributes ++ "\n" ++
    String.join ((sortByKey (fun entry => entry.2.idx) orders.extResources).map fun entry =>
      headingText "ext_resource" (extResourceAttributes path removeUid entry.2)) ++
    (if scene.extResources = ∅ then "" else "\n") ++
    String.join ((sortByKey (fun entry => entry.2.idx) orders.subResources).map
      (subResourceText orders))

/-! ## Nodes -/

/-- The text of a node's `parent` attribute. -/
def parentName (fuel : ℕ) (node : GodotNode) (parentId : NodeId) : Run String :=
  if scene.rootNodeId = some parentId then .done "."
  else
    match node.parentPathFallback with
    | some parentPath => .done parentPath
    | none => scene.getNodePath fuel parentId

def parentAttributes (fuel : ℕ) (node : GodotNode) : Run (List Attribute) :=
  match node.parentId with
  | none => .done []
  | some parentId => do
      let parentName ← scene.parentName fuel node parentId
      return ("parent", quoted parentName) ::
        optionalAttribute "parent_id_path" (node.parentIdPath.map serializeInt32Array)

def ownerAttributes (node : GodotNode) : List Attribute :=
  match node.owner with
  | none => []
  | some owner =>
      ("owner", quoted owner) ::
        optionalAttribute "owner_uid_path" (node.ownerUidPath.map serializeInt32Array)

def typeAttributes (node : GodotNode) : List Attribute :=
  match node.typeOrInstance with
  | some (.ofType name) => [("type", quoted name)]
  | _ => []

def instanceAttributes (node : GodotNode) : List Attribute :=
  match node.typeOrInstance with
  | some (.ofInstance id) => [("instance", id)]
  | _ => []

/-- The attributes of a node, given those that speak of its parent. -/
def nodeAttributesWith (node : GodotNode) (parentAttributes : List Attribute) :
    List Attribute :=
  ("name", quoted node.name) :: typeAttributes node ++ parentAttributes ++
    ownerAttributes node ++
    optionalAttribute "index" (node.index.map fun index => quoted (displayInteger index)) ++
    [("unique_id", displayI32 node.id.id)] ++
    optionalAttribute "node_paths" node.nodePaths ++
    optionalAttribute "groups" node.groups ++
    optionalAttribute "instance_placeholder" node.instancePlaceholder ++
    instanceAttributes node

def nodeAttributes (fuel : ℕ) (node : GodotNode) : Run (List Attribute) := do
  let parentAttributes ← scene.parentAttributes fuel node
  return nodeAttributesWith node parentAttributes

end GodotScene

/-- What `serialize_node` threads through its calls: the text so far, and the
position at which each node id was last visited. -/
structure NodeOutput where
  output : String
  nodePathsVisited : HashMap NodeId ℤ

/-- Write one node and record the visit. -/
def NodeOutput.write (written : NodeOutput) (orders : IterationOrders) (key : NodeId)
    (node : GodotNode) (attributes : List Attribute) : NodeOutput where
  output := written.output ++ headingText "node" attributes ++
    propertiesText (orders.nodeProperties key) ++ "\n"
  nodePathsVisited :=
    written.nodePathsVisited.insert node.id written.nodePathsVisited.keys.card

namespace GodotScene

variable (scene : GodotScene)

/-- `serialize_node`: the node itself, then those of its children that exist. -/
def serializeNode (orders : IterationOrders) :
    ℕ → NodeId → GodotNode → NodeOutput → Run NodeOutput
  | 0, _, _, _ => .running
  | fuel + 1, key, node, written => do
      let attributes ← scene.nodeAttributes fuel node
      node.childNodeIds.foldlM
        (fun written childId =>
          match scene.nodes.lookup childId with
          | some child => serializeNode orders fuel childId child written
          | none => .done written)
        (written.write orders key node attributes)

/-- The root and everything below it, without the extra trailing line when
nothing follows. -/
def serializeRoot (orders : IterationOrders) (fuel : ℕ) (output : String) :
    Run NodeOutput :=
  match scene.rootNodeId with
  | none => .done ⟨output, ∅⟩
  | some rootNodeId =>
      match scene.nodes.lookup rootNodeId with
      | none => .done ⟨output, ∅⟩
      | some rootNode => do
          let written ← scene.serializeNode orders fuel rootNodeId rootNode ⟨output, ∅⟩
          if scene.connections = ∅ ∧ scene.editableInstances = [] then
            return { written with output := String.ofList written.output.toList.dropLast }
          else
            return written

/-! ## Connections -/

/-- What connections are sorted by: their ends by visit, `-1` for an end that
was not visited. -/
def connectionKey (visited : HashMap NodeId ℤ) (connection : GodotConnection) :
    ℤ ×ₗ String ×ₗ ℤ ×ₗ String :=
  toLex ((visited.lookup connection.fromNodeId).getD (-1),
    toLex (connection.signal,
      toLex ((visited.lookup connection.toNodeId).getD (-1), connection.method)))

/-- The attributes of a connection, given the paths of its two ends. -/
def connectionAttributesWith (connection : GodotConnection) (fromPath toPath : String) :
    List Attribute :=
  [("signal", quoted connection.signal), ("from", quoted fromPath), ("to", quoted toPath),
      ("method", quoted connection.method)] ++
    optionalAttribute "flags" (connection.flags.map displayInteger) ++
    optionalAttribute "from_uid_path" (connection.fromUidPath.map serializeInt32Array) ++
    optionalAttribute "to_uid_path" (connection.toUidPath.map serializeInt32Array) ++
    optionalAttribute "unbinds" (connection.unbinds.map displayInteger) ++
    optionalAttribute "binds" connection.binds

def connectionAttributes (fuel : ℕ) (connection : GodotConnection) :
    Run (List Attribute) := do
  let fromPath ← scene.getNodePath fuel connection.fromNodeId
  let toPath ← scene.getNodePath fuel connection.toNodeId
  return connectionAttributesWith connection fromPath toPath

def connectionText (fuel : ℕ) (connection : GodotConnection) : Run String := do
  let attributes ← scene.connectionAttributes fuel connection
  return headingText "connection" attributes

def editableText (path : String) : String := headingText "editable" [("path", quoted path)]

/-- The blank line between connections and editables, and the editables. -/
def editablesText : String :=
  (if scene.connections ≠ ∅ ∧ scene.editableInstances ≠ [] then "\n" else "") ++
    String.join (scene.editableInstances.map editableText)

/-! ## The whole text -/

/-- `serialize_with_ext_resource_override`.  The override only changes how the
path of an external resource is written, so it is given as that function. -/
def serializeWithExtResourceOverride (path : String → String) (removeUid : Bool)
    (orders : IterationOrders) (fuel : ℕ) : Run String :=
  let output := scene.resourcesText path removeUid orders
  match scene.mainResource with
  | some _ => .done (output ++ "[resource]\n" ++ propertiesText orders.mainResourceProperties)
  | none => do
      let written ← scene.serializeRoot orders fuel output
      let connections ←
        (sortByKey (fun entry => connectionKey written.nodePathsVisited entry.2)
          orders.connections).mapM fun entry => scene.connectionText fuel entry.2
      return written.output ++ String.join connections ++ scene.editablesText

/-- `serialize`. -/
def serialize (orders : IterationOrders) (fuel : ℕ) : Run String :=
  scene.serializeWithExtResourceOverride id false orders fuel

/-- A call of `serialize` that iterates the maps in these orders returns `text`. -/
def Serializes (orders : IterationOrders) (text : String) : Prop :=
  ∃ fuel, scene.serialize orders fuel = .done text

end GodotScene

end Backstitch
