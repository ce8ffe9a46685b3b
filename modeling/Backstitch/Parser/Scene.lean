/-
# Scenes in memory

The values that `parse_scene` builds, that a document stores and that
`serialize` writes.  The tree of a scene is kept three times over: every node
names its parent, every node lists its children, and connections name their two
ends.  Nothing in the type makes the three agree; which function needs them to
is a matter for the modules that follow.

`i32` values are fixed-width; `i64` fields are integers, because the source only
counts, compares, prints and parses them.
-/

import Backstitch.Library.HashMap
import Backstitch.Library.Run
import Backstitch.Library.RustText

namespace Backstitch

/-- A node's unique id, qualified by the instances it is edited through. -/
structure NodeId where
  id : Int32
  rootInstanceId : Option (List Int32)
  deriving DecidableEq

namespace NodeId

/-- `UNIQUE_SCENE_ID_UNASSIGNED`. -/
def unassigned : NodeId := ⟨0, none⟩

/-- `Display`: the ids separated by dashes. -/
def display (nodeId : NodeId) : String :=
  displayI32 nodeId.id ++
    match nodeId.rootInstanceId with
    | some rootInstanceId => String.join (rootInstanceId.map fun id => "-" ++ displayI32 id)
    | none => ""

/-- One part of the text of an id. -/
def parsePart (text part : String) : Run Int32 :=
  match parseI32 part with
  | some value => .done value
  | none => .fail ("Invalid node id: " ++ text)

/-- `FromStr`: split at every dash and read each part as an `i32`. -/
def fromStr (text : String) : Run NodeId :=
  match splitAtChar '-' text with
  | [] => .fail ("Invalid node id: " ++ text)
  | first :: rest => do
      let id ← parsePart text first
      if rest = [] then
        return ⟨id, none⟩
      else
        let rootInstanceId ← rest.mapM (parsePart text)
        return ⟨id, some rootInstanceId⟩

end NodeId

/-- A property below a section heading, with its position there. -/
structure OrderedProperty where
  value : String
  order : ℤ
  deriving DecidableEq

/-- A property map, keyed by property name. -/
abbrev Properties := HashMap String OrderedProperty

/-- A node may have a type or an instance attribute. -/
inductive TypeOrInstance
  | ofType (name : String)
  | ofInstance (id : String)
  deriving DecidableEq

/-- A node of a scene.  `parentPathFallback` is set when the parent lies inside an
instanced scene and can only be named by its path. -/
structure GodotNode where
  id : NodeId
  name : String
  typeOrInstance : Option TypeOrInstance
  instancePlaceholder : Option String
  parentId : Option NodeId
  parentPathFallback : Option String
  parentIdPath : Option (List Int32)
  owner : Option String
  ownerUidPath : Option (List Int32)
  index : Option ℤ
  groups : Option String
  nodePaths : Option String
  properties : Properties
  childNodeIds : List NodeId
  deriving DecidableEq

/-- A node with an id, a name and a place in the tree, and nothing else. -/
def GodotNode.bare (id : NodeId) (name : String) (parentId : Option NodeId)
    (childNodeIds : List NodeId) : GodotNode where
  id := id
  name := name
  typeOrInstance := none
  instancePlaceholder := none
  parentId := parentId
  parentPathFallback := none
  parentIdPath := none
  owner := none
  ownerUidPath := none
  index := none
  groups := none
  nodePaths := none
  properties := ∅
  childNodeIds := childNodeIds

structure GodotConnection where
  signal : String
  fromNodeId : NodeId
  toNodeId : NodeId
  method : String
  flags : Option ℤ
  fromUidPath : Option (List Int32)
  toUidPath : Option (List Int32)
  unbinds : Option ℤ
  binds : Option String
  deriving DecidableEq

/-- The key a connection is stored under. -/
def GodotConnection.id (connection : GodotConnection) : String :=
  connection.signal ++ "-" ++ connection.fromNodeId.display ++ "-" ++
    connection.toNodeId.display ++ "-" ++ connection.method ++ "-" ++
    (connection.flags.elim "" displayInteger) ++ "-" ++
    (connection.unbinds.elim "" displayInteger) ++ "-" ++
    connection.binds.getD "[]"

structure ExternalResourceNode where
  resourceType : String
  uid : Option String
  path : String
  id : String
  idx : ℤ
  deriving DecidableEq

structure SubResourceNode where
  id : String
  resourceType : String
  properties : Properties
  idx : ℤ
  deriving DecidableEq

/-- The fields of `GodotScene` other than its nodes. -/
structure SceneFields where
  loadSteps : ℤ
  format : ℤ
  uid : String
  scriptClass : Option String
  resourceType : String
  rootNodeId : Option NodeId
  extResources : HashMap String ExternalResourceNode
  subResources : HashMap String SubResourceNode
  connections : HashMap String GodotConnection
  editableInstances : List String
  mainResource : Option SubResourceNode
  deriving DecidableEq

structure GodotScene extends SceneFields where
  nodes : HashMap NodeId GodotNode
  deriving DecidableEq

/-- A scene as a document stores it: a node is found under the text of its id. -/
structure StoredScene extends SceneFields where
  nodes : HashMap String GodotNode
  deriving DecidableEq

namespace GodotScene

variable (scene : GodotScene)

/-- The id that a path walk takes for the root. -/
def rootIdOrUnassigned : NodeId := scene.rootNodeId.getD .unassigned

/-- The loop of `get_node_path`: prepend names on the way up from `currentId`. -/
def getNodePathLoop : ℕ → String → NodeId → Run String
  | 0, _, _ => .running
  | fuel + 1, path, currentId =>
      match scene.nodes.lookup currentId with
      | none => .panic
      | some node =>
          let path := if path = "" then node.name else node.name ++ "/" ++ path
          match node.parentPathFallback with
          | some parentPath =>
              if parentPath = "." then .done path else .done (parentPath ++ "/" ++ path)
          | none =>
              match node.parentId with
              | some parentId =>
                  if parentId = scene.rootIdOrUnassigned then .done path
                  else getNodePathLoop fuel path parentId
              | none => .done path

/-- The path by which Godot would name a node, `.` for the root. -/
def getNodePath (fuel : ℕ) (nodeId : NodeId) : Run String :=
  if nodeId = scene.rootIdOrUnassigned then .done "."
  else scene.getNodePathLoop fuel "" nodeId

end GodotScene

end Backstitch
