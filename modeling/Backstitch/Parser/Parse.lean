/-
# Reading a scene

`parse_scene`, from the list of sections that the grammar yields for a text.  It
passes over the sections once, then over the nodes in the order they were read,
giving out ids; then over their keys, finding parents; and then over the
connections.

Fresh ids are drawn at random.  The draws and the text that `{:?}` gives a hash
map are not determined by the input, so they are parameters of a run.
-/

import Backstitch.Parser.Scene

namespace Backstitch

/-- A section of the text: its identifier, the attributes of its heading and the
properties below it, every value as its exact source text. -/
structure Section where
  identifier : String
  attributes : List (String × String)
  properties : List (String × String)
  deriving DecidableEq

/-- What one run of `parse_scene` takes from outside: the ids it draws, and how
the paths in an error message are printed. -/
structure ParseEnv where
  random : ℕ → Fin (2 ^ 31)
  debugPaths : HashMap String NodeId → String

/-! ## Values -/

/-- `unquote`.  Of a single quotation mark it takes the slice from 1 to 0, which
panics. -/
def unquote (string : String) : Run String :=
  match string.toList with
  | ['"'] => .panic
  | '"' :: rest => .done (if rest.getLast? = some '"' then String.ofList rest.dropLast else string)
  | _ => .done string

/-- `parse_int32_array`.  A missing bracket panics; a part that is no `i32` is zero. -/
def parseInt32Array (string : String) : Run (List Int32) :=
  match (stripPrefix "PackedInt32Array(" string).bind (stripSuffix ")") with
  | none => .panic
  | some inner => .done ((splitAtChar ',' (trimText inner)).map fun part =>
      (parseI32 (trimText part)).getD 0)

namespace Section

variable (input : Section)

/-- The attribute map of a heading: the last value given for a key. -/
def heading (key : String) : Option String := input.attributes.reverse.lookup key

/-- The properties with their positions, collected into a map. -/
def orderedProperties : Properties :=
  HashMap.collect (input.properties.zipIdx.map fun property =>
    ⟨property.1.1, ⟨property.1.2, property.2⟩⟩)

/-- An attribute without which the section is refused. -/
def required (key place : String) : Run String :=
  match input.heading key with
  | some value => unquote value
  | none => .fail ("Missing required '" ++ key ++ "' attribute in " ++ place)

def optional (key : String) : Run (Option String) :=
  match input.heading key with
  | some value => some <$> unquote value
  | none => .done none

def optionalArray (key : String) : Run (Option (List Int32)) :=
  match input.heading key with
  | some value => some <$> parseInt32Array value
  | none => .done none

/-- An attribute that is read as an `i64` as it stands, and dropped if it is none. -/
def optionalInteger (key : String) : Option ℤ := (input.heading key).bind parseI64

/-- The `format` of a header, which is refused when it is no number. -/
def format (place : String) : Run ℤ :=
  match input.optionalInteger "format" with
  | some format => .done format
  | none => .fail ("Missing required 'format' attribute in " ++ place)

end Section

structure SceneMetadata where
  loadSteps : ℤ
  format : ℤ
  uid : String
  scriptClass : Option String
  resourceType : String
  deriving DecidableEq

/-! ## The sections -/

/-- What the loop over the sections accumulates. -/
structure SectionState where
  sceneMetadata : Option SceneMetadata := none
  parsedNodeIds : Finset NodeId := ∅
  nodeArr : List (GodotNode × Option String) := []
  extResources : HashMap String ExternalResourceNode := ∅
  extResourceIdx : ℤ := 0
  subResources : HashMap String SubResourceNode := ∅
  subResourceIdx : ℤ := 0
  connectionsArr : List (String × String × GodotConnection) := []
  mainResource : Option SubResourceNode := none
  editableInstances : List String := []

namespace SectionState

variable (state : SectionState) (input : Section)

def readResourceHeader : Run SectionState := do
  let loadSteps := (input.optionalInteger "load_steps").getD 0
  let format ← input.format "gd_resource header"
  let scriptClass ← input.optional "script_class"
  let uid ← input.required "uid" "gd_resource header"
  let resourceType ← input.required "type" "gd_resource header"
  return { state with
    sceneMetadata := some { loadSteps, format, uid, scriptClass, resourceType } }

/-- The main resource takes its type from the header, if that came before. -/
def readResource : Run SectionState :=
  .done { state with mainResource := some {
    id := ""
    resourceType := (state.sceneMetadata.map SceneMetadata.resourceType).getD ""
    properties := input.orderedProperties
    idx := 0 } }

def readSceneHeader : Run SectionState := do
  let loadSteps := (input.optionalInteger "load_steps").getD 0
  let format ← input.format "scene header"
  let uid ← input.required "uid" "scene header"
  return { state with
    sceneMetadata := some
      { loadSteps, format, uid, scriptClass := none, resourceType := "PackedScene" } }

/-- The id in the text, or the unassigned one. -/
def nodeIdOf : NodeId :=
  match input.heading "unique_id" with
  | some uniqueId => ⟨(parseI32 uniqueId).getD 0, none⟩
  | none => .unassigned

def typeOrInstanceOf : Run (Option TypeOrInstance) :=
  match input.heading "type" with
  | some typeValue => (some ∘ .ofType) <$> unquote typeValue
  | none =>
      match input.heading "instance" with
      | some instanceValue => (some ∘ .ofInstance) <$> unquote instanceValue
      | none => .done none

def indexOf : Run (Option ℤ) :=
  match input.heading "index" with
  | some index => parseI64 <$> unquote index
  | none => .done none

/-- A node with an id that was read before loses it, unless it edits an instance. -/
def readNode : Run SectionState := do
  let nodeId := nodeIdOf input
  let name ← input.required "name" "node section"
  let instancePlaceholder ← input.optional "instance_placeholder"
  let parentIdPath ← input.optionalArray "parent_id_path"
  let ownerUidPath ← input.optionalArray "owner_uid_path"
  let typeOrInstance ← typeOrInstanceOf input
  let duplicate := nodeId ∈ state.parsedNodeIds ∧ typeOrInstance ≠ none
  let nodePaths ← input.optional "node_paths"
  let parentPath ← input.optional "parent"
  let owner ← input.optional "owner"
  let index ← indexOf input
  let node : GodotNode := {
    id := if duplicate then .unassigned else nodeId
    name, typeOrInstance, instancePlaceholder
    parentId := none
    parentPathFallback := parentPath
    parentIdPath, owner, ownerUidPath, index
    groups := input.heading "groups"
    nodePaths
    properties := input.orderedProperties
    childNodeIds := [] }
  return { state with
    parsedNodeIds := insert nodeId state.parsedNodeIds
    nodeArr := state.nodeArr ++ [(node, parentPath)] }

def readExtResource : Run SectionState := do
  let resourceType ← input.required "type" "ext_resource section"
  let uid ← input.optional "uid"
  let path ← input.required "path" "ext_resource section"
  let id ← input.required "id" "ext_resource section"
  return { state with
    extResources := state.extResources.insert id
      { resourceType, uid, path, id, idx := state.extResourceIdx }
    extResourceIdx := state.extResourceIdx + 1 }

def readSubResource : Run SectionState := do
  let id ← input.required "id" "sub_resource section"
  let resourceType ← input.required "type" "sub_resource section"
  return { state with
    subResources := state.subResources.insert id
      { id, resourceType, properties := input.orderedProperties, idx := state.subResourceIdx }
    subResourceIdx := state.subResourceIdx + 1 }

/-- The ends of a connection are left open until all nodes have an id. -/
def readConnection : Run SectionState := do
  let signal ← input.required "signal" "connection section"
  let fromPath ← input.required "from" "connection section"
  let toPath ← input.required "to" "connection section"
  let method ← input.required "method" "connection section"
  let fromUidPath ← input.optionalArray "from_uid_path"
  let toUidPath ← input.optionalArray "to_uid_path"
  let binds ← input.optional "binds"
  let connection : GodotConnection := {
    signal
    fromNodeId := .unassigned
    toNodeId := .unassigned
    method
    flags := input.optionalInteger "flags"
    fromUidPath, toUidPath
    unbinds := input.optionalInteger "unbinds"
    binds }
  return { state with
    connectionsArr := state.connectionsArr ++ [(fromPath, toPath, connection)] }

def readEditable : Run SectionState := do
  let path ← input.required "path" "editable section"
  return { state with editableInstances := state.editableInstances ++ [path] }

/-- One round of the loop over the sections. -/
def readSection : Run SectionState :=
  if input.identifier = "gd_resource" then state.readResourceHeader input
  else if input.identifier = "resource" then state.readResource input
  else if input.identifier = "gd_scene" then state.readSceneHeader input
  else if input.identifier = "node" then state.readNode input
  else if input.identifier = "ext_resource" then state.readExtResource input
  else if input.identifier = "sub_resource" then state.readSubResource input
  else if input.identifier = "connection" then state.readConnection input
  else if input.identifier = "editable" then state.readEditable input
  else .done state

end SectionState

/-! ## Ids for the nodes -/

/-- `path[0..last_slash]`, or the empty path. -/
def popPath (path : String) : String :=
  String.ofList ((path.toList.reverse.dropWhile (· ≠ '/')).drop 1).reverse

/-- The values that a loop popping one element after the other gives its path. -/
def pathsUp : ℕ → String → List String
  | 0, _ => []
  | fuel + 1, path => if path = "" then [] else path :: pathsUp fuel (popPath path)

/-- A path and its ancestors; every round shortens the path. -/
def ancestorPaths (path : String) : List String := pathsUp path.toList.length path

/-- What the loop over the nodes carries along. -/
structure NodeState where
  parsedNodeIds : Finset NodeId
  draws : ℕ := 0
  nodes : HashMap NodeId GodotNode := ∅
  nodeIdByNodePath : HashMap String NodeId := ∅
  rootNodeId : Option NodeId := none
  keys : List NodeId := []

namespace NodeState

variable (env : ParseEnv) (state : NodeState)

/-- Draw ids until one is new. -/
def drawNodeId : ℕ → ℕ → Run (NodeId × ℕ)
  | 0, _ => .running
  | fuel + 1, draws =>
      let nodeId : NodeId := ⟨Int32.ofNat (env.random draws), none⟩
      if nodeId ∈ state.parsedNodeIds then drawNodeId fuel (draws + 1)
      else .done (nodeId, draws + 1)

/-- An unassigned id is replaced by a new one. -/
def assignNodeId (fuel : ℕ) (nodeId : NodeId) : Run (NodeId × NodeState) :=
  if nodeId = .unassigned then do
    let (nodeId, draws) ← state.drawNodeId env fuel state.draws
    return (nodeId, { state with
      draws := draws, parsedNodeIds := insert nodeId state.parsedNodeIds })
  else .done (nodeId, state)

/-- The elements of `rootInstanceId` that are not there yet, put in front. -/
def prependMissing (rootInstanceId path : List Int32) : List Int32 :=
  rootInstanceId.foldr (fun id path => if id ∈ path then path else id :: path) path

/-- The walk from an edited node to the instances above it.  A path that names no
node is not shortened, and the loop never ends. -/
def instancesAbove : List String → Option NodeId → List Int32 →
    Run (Option NodeId × List Int32)
  | [], parentId, parentIdPath => .done (parentId, parentIdPath)
  | path :: paths, parentId, parentIdPath =>
      match state.nodeIdByNodePath.lookup path with
      | none => .running
      | some nodeId =>
          match state.nodes.lookup nodeId with
          | none => instancesAbove paths parentId parentIdPath
          | some parent =>
              let parentId := some (parentId.getD nodeId)
              match parent.id.rootInstanceId with
              | some rootInstanceId =>
                  .done (parentId, prependMissing rootInstanceId (nodeId.id :: parentIdPath))
              | none =>
                  match parent.typeOrInstance with
                  | some (.ofInstance _) =>
                      instancesAbove paths parentId (nodeId.id :: parentIdPath)
                  | _ => instancesAbove paths parentId parentIdPath

/-- A node without type or instance edits a node inside an instance; its id is
qualified by the instances it is edited through. -/
def qualifyNode (node : GodotNode) : Run GodotNode :=
  let parentPath := node.parentPathFallback.getD ""
  let qualified (node : GodotNode) (rootInstanceId : List Int32) (parentId : Option NodeId) :=
    { node with id := ⟨node.id.id, some rootInstanceId⟩, parentId := parentId }
  let byPath (_ : Unit) : Run GodotNode :=
    if parentPath ≠ "" then do
      let node := if parentPath ∈ state.nodeIdByNodePath
        then { node with parentPathFallback := none } else node
      let (parentId, parentIdPath) ← state.instancesAbove (ancestorPaths parentPath) none []
      return qualified node parentIdPath parentId
    else .fail ("Invalid parent path for an instanced node: '" ++ node.name ++ "'")
  if parentPath = "." then
    let rootNodeId := state.rootNodeId.getD .unassigned
    .done (qualified node [rootNodeId.id] (some rootNodeId))
  else
    match node.parentIdPath with
    | some (id :: ids) => .done (qualified node (id :: ids) none)
    | _ => byPath ()

/-- The node as it is kept: only one that edits an instance is qualified. -/
def placeNode (node : GodotNode) : Run GodotNode :=
  if node.typeOrInstance = none then state.qualifyNode node else .done node

/-- The path a node is indexed under. -/
def indexedPath (parentPath : Option String) (name : String) : String :=
  match parentPath with
  | some parentPath => if parentPath = "." then name else parentPath ++ "/" ++ name
  | none => "."

/-- One round of the loop over the nodes. -/
def addNode (fuel : ℕ) (input : GodotNode × Option String) : Run NodeState := do
  let (node, parentPath) := input
  let (nodeId, state) ← state.assignNodeId env fuel node.id
  let node ← state.placeNode { node with id := nodeId }
  let rootNodeId := if parentPath = none then some node.id else state.rootNodeId
  let nodeIdByNodePath :=
    state.nodeIdByNodePath.insert (indexedPath parentPath node.name) node.id
  if node.id ∈ state.nodes then
    .fail ("Node '" ++ node.id.display ++ "' already exists?!?!?!")
  else
    return { state with
      nodes := state.nodes.insert node.id node
      nodeIdByNodePath := nodeIdByNodePath
      rootNodeId := rootNodeId
      keys := state.keys ++ [node.id] }

end NodeState

/-! ## Parents -/

/-- The parent of a node and its new fallback: the node at the parent path, or the
nearest one above it. -/
def findParent (nodeIdByNodePath : HashMap String NodeId) (node : GodotNode) :
    Run GodotNode :=
  match node.parentId, node.parentPathFallback with
  | none, some parentPath =>
      match nodeIdByNodePath.lookup parentPath with
      | some parentId =>
          .done { node with parentPathFallback := none, parentId := some parentId }
      | none =>
          match (ancestorPaths parentPath).findSome? nodeIdByNodePath.lookup with
          | some parentId => .done { node with parentId := some parentId }
          | none => .fail ("Can't find any parent node in parent path '' for node '" ++
              node.name ++ "'")
  | _, _ => .done node

/-- One round of the loop over the keys: find the parent and become its child. -/
def linkNode (nodeIdByNodePath : HashMap String NodeId) (nodes : HashMap NodeId GodotNode)
    (uid : NodeId) : Run (HashMap NodeId GodotNode) :=
  match nodes.lookup uid with
  | none => .panic
  | some node => do
      let node ← findParent nodeIdByNodePath node
      let nodes := nodes.insert uid node
      match node.parentId with
      | none => return nodes
      | some parentId =>
          match nodes.lookup parentId with
          | some parentNode =>
              return nodes.insert parentId
                { parentNode with childNodeIds := parentNode.childNodeIds ++ [uid] }
          | none => .fail ("Can't find parent node '" ++ parentId.display ++ "' for node '" ++
              uid.display ++ "'")

/-! ## Connections -/

/-- A path into nodes that Godot makes up while running. -/
def isTemporaryPath (path : String) : Bool :=
  decide ("@".toList <+: path.toList) || decide ("/@".toList <:+: path.toList)

/-- One round of the loop over the connections; one with a temporary end is dropped. -/
def addConnection (env : ParseEnv) (nodeIdByNodePath : HashMap String NodeId)
    (connections : HashMap String GodotConnection)
    (input : String × String × GodotConnection) : Run (HashMap String GodotConnection) :=
  let (fromPath, toPath, connection) := input
  match nodeIdByNodePath.lookup fromPath with
  | none =>
      if isTemporaryPath fromPath then .done connections
      else .fail ("Can't find node \"" ++ fromPath ++ "\", " ++ env.debugPaths nodeIdByNodePath)
  | some fromNodeId =>
      match nodeIdByNodePath.lookup toPath with
      | none =>
          if isTemporaryPath toPath then .done connections
          else .fail ("Can't find node \"" ++ fromPath ++ "\"")
      | some toNodeId =>
          let connection :=
            { connection with fromNodeId := fromNodeId, toNodeId := toNodeId }
          .done (connections.insert connection.id connection)

/-! ## The whole text -/

/-- `parse_scene`, on the sections of a text. -/
def parseScene (env : ParseEnv) (fuel : ℕ) (sections : List Section) : Run GodotScene := do
  let read ← sections.foldlM SectionState.readSection {}
  let placed ← read.nodeArr.foldlM (fun state input => state.addNode env fuel input)
    ({ parsedNodeIds := read.parsedNodeIds } : NodeState)
  let nodes ← placed.keys.foldlM (linkNode placed.nodeIdByNodePath) placed.nodes
  let connections ←
    read.connectionsArr.foldlM (addConnection env placed.nodeIdByNodePath) ∅
  match read.sceneMetadata with
  | none => .fail "missing gd_scene header"
  | some metadata => return {
      loadSteps := metadata.loadSteps
      format := metadata.format
      uid := metadata.uid
      scriptClass := metadata.scriptClass
      resourceType := metadata.resourceType
      rootNodeId := placed.rootNodeId
      extResources := read.extResources
      subResources := read.subResources
      nodes, connections
      editableInstances := read.editableInstances
      mainResource := read.mainResource }

/-- A run of `parse_scene` on these sections returns this scene. -/
def ParsesTo (env : ParseEnv) (sections : List Section) (scene : GodotScene) : Prop :=
  ∃ fuel, parseScene env fuel sections = .done scene

end Backstitch
