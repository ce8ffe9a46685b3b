/-
# What is accepted is well formed

Whatever sections `parse_scene` accepts, the scene that it returns hangs together: nodes,
resources and connections stand under their ids, everything that is named is there, and no two
properties or resources of one kind have the same number.  So its text can depend on iteration
orders by its connections alone.
-/

import Backstitch.Library.Numbering
import Backstitch.Parser.ConnectionKeys
import Backstitch.Parser.Determinism
import Backstitch.Parser.NodePaths

namespace Backstitch

/-- No two properties have one position. -/
def Properties.Numbered (properties : Properties) : Prop :=
  ∃ bound, HashMap.NumberedBelow OrderedProperty.order bound properties

theorem Section.numbered_orderedProperties (input : Section) :
    Properties.Numbered input.orderedProperties :=
  ⟨_, @HashMap.numberedBelow_collect _ _ _ OrderedProperty.order _ input.properties Prod.fst
    (fun property position => ⟨property.2, position⟩) fun _ _ => rfl⟩

/-! ## The first pass -/

namespace SectionState

/-- The resources stand under their ids, numbered, and so are the properties. -/
structure Tidy (state : SectionState) : Prop where
  extKeyed : ∀ key resource, state.extResources.lookup key = some resource → resource.id = key
  extNumbered : HashMap.NumberedBelow ExternalResourceNode.idx state.extResourceIdx
    state.extResources
  subKeyed : ∀ key resource, state.subResources.lookup key = some resource →
    resource.id = key ∧ Properties.Numbered resource.properties
  subNumbered : HashMap.NumberedBelow SubResourceNode.idx state.subResourceIdx state.subResources
  nodes : ∀ entry ∈ state.nodeArr, Properties.Numbered entry.1.properties
  mainResource : ∀ resource, state.mainResource = some resource →
    Properties.Numbered resource.properties

variable {state next : SectionState} {input : Section}

theorem tidy_empty : ({} : SectionState).Tidy where
  extKeyed := by simp
  extNumbered := HashMap.numberedBelow_empty _ _
  subKeyed := by simp
  subNumbered := HashMap.numberedBelow_empty _ _
  nodes := by simp
  mainResource := by simp

theorem lookup_insert_cases {ν : Type} {map : HashMap String ν} {key other : String}
    {value stored : ν} (hstored : (map.insert key value).lookup other = some stored) :
    other = key ∧ stored = value ∨ map.lookup other = some stored := by
  by_cases heq : other = key
  · subst heq
    rw [Finmap.lookup_insert] at hstored
    exact .inl ⟨rfl, (Option.some.inj hstored).symm⟩
  · rw [Finmap.lookup_insert_of_ne _ heq] at hstored
    exact .inr hstored

theorem Tidy.readExtResource (htidy : state.Tidy)
    (hdone : state.readExtResource input = .done next) : next.Tidy := by
  simp only [SectionState.readExtResource, Run.bind_eq_done_iff, Run.pure_eq_done,
    Run.done.injEq] at hdone
  obtain ⟨resourceType, -, uid, -, path, -, id, -, rfl⟩ := hdone
  refine { htidy with
    extKeyed := fun key resource hresource => ?_
    extNumbered := htidy.extNumbered.insert rfl }
  rcases lookup_insert_cases hresource with ⟨rfl, rfl⟩ | hold
  · rfl
  · exact htidy.extKeyed key resource hold

theorem Tidy.readSubResource (htidy : state.Tidy)
    (hdone : state.readSubResource input = .done next) : next.Tidy := by
  simp only [SectionState.readSubResource, Run.bind_eq_done_iff, Run.pure_eq_done,
    Run.done.injEq] at hdone
  obtain ⟨id, -, resourceType, -, rfl⟩ := hdone
  refine { htidy with
    subKeyed := fun key resource hresource => ?_
    subNumbered := htidy.subNumbered.insert rfl }
  rcases lookup_insert_cases hresource with ⟨rfl, rfl⟩ | hold
  · exact ⟨rfl, input.numbered_orderedProperties⟩
  · exact htidy.subKeyed key resource hold

theorem Tidy.readNode (htidy : state.Tidy) (hdone : state.readNode input = .done next) :
    next.Tidy := by
  simp only [SectionState.readNode, Run.bind_eq_done_iff, Run.pure_eq_done,
    Run.done.injEq] at hdone
  obtain ⟨_, -, _, -, _, -, _, -, _, -, _, -, _, -, _, -, _, -, rfl⟩ := hdone
  refine { htidy with nodes := fun entry hentry => ?_ }
  rcases List.mem_append.mp hentry with hold | hself
  · exact htidy.nodes entry hold
  · rw [List.mem_singleton.mp hself]
    exact input.numbered_orderedProperties

/-- **Every section keeps what was read tidy.** -/
theorem Tidy.readSection (htidy : state.Tidy) (hdone : state.readSection input = .done next) :
    next.Tidy := by
  unfold SectionState.readSection at hdone
  split at hdone
  · simp only [readResourceHeader, Run.bind_eq_done_iff, Run.pure_eq_done, Run.done.injEq] at hdone
    obtain ⟨_, -, _, -, _, -, _, -, rfl⟩ := hdone
    exact { htidy with }
  split at hdone
  · cases hdone
    refine { htidy with mainResource := fun resource hresource => ?_ }
    cases hresource
    exact input.numbered_orderedProperties
  split at hdone
  · simp only [readSceneHeader, Run.bind_eq_done_iff, Run.pure_eq_done, Run.done.injEq] at hdone
    obtain ⟨_, -, _, -, rfl⟩ := hdone
    exact { htidy with }
  split at hdone
  · exact htidy.readNode hdone
  split at hdone
  · exact htidy.readExtResource hdone
  split at hdone
  · exact htidy.readSubResource hdone
  split at hdone
  · simp only [readConnection, Run.bind_eq_done_iff, Run.pure_eq_done, Run.done.injEq] at hdone
    obtain ⟨_, -, _, -, _, -, _, -, _, -, _, -, _, -, rfl⟩ := hdone
    exact { htidy with }
  split at hdone
  · simp only [readEditable, Run.bind_eq_done_iff, Run.pure_eq_done, Run.done.injEq] at hdone
    obtain ⟨_, -, rfl⟩ := hdone
    exact { htidy with }
  · cases hdone
    exact htidy

theorem tidy_of_foldlM {sections : List Section} {read : SectionState}
    (hdone : sections.foldlM SectionState.readSection {} = .done read) : read.Tidy :=
  Run.foldlM_induct hdone tidy_empty fun _ _ _ _ htidy hround => htidy.readSection hround

end SectionState

/-! ## The nodes -/

namespace NodeState

/-- The nodes stand under their ids and the index names nodes.  The root hangs nowhere. -/
structure Sorted (state : NodeState) : Prop where
  keyed : ∀ id node, state.nodes.lookup id = some node →
    node.id = id ∧ Properties.Numbered node.properties
  indexed : ∀ path id, state.nodeIdByNodePath.lookup path = some id → id ∈ state.nodes
  root : ∀ root, state.rootNodeId = some root → ∃ node, state.nodes.lookup root = some node ∧
    node.parentId = none ∧ node.parentPathFallback = none

variable {state next : NodeState} {env : ParseEnv} {fuel : ℕ}

theorem qualifyNode_properties {node result : GodotNode}
    (hdone : state.qualifyNode node = .done result) : result.properties = node.properties := by
  unfold qualifyNode at hdone
  simp only at hdone
  split at hdone
  · cases hdone
    rfl
  · split at hdone
    · cases hdone
      rfl
    · split at hdone
      · obtain ⟨⟨parentId, parentIdPath⟩, -, hresult⟩ := Run.bind_eq_done_iff.mp hdone
        cases hresult
        split <;> rfl
      · cases hdone

theorem placeNode_properties {node result : GodotNode}
    (hdone : state.placeNode node = .done result) : result.properties = node.properties := by
  unfold placeNode at hdone
  split at hdone
  · exact qualifyNode_properties hdone
  · cases hdone
    rfl

/-- **Every round keeps the nodes sorted.** -/
theorem Sorted.addNode (hsorted : state.Sorted) {input : GodotNode × Option String}
    (hnumbered : Properties.Numbered input.1.properties) (hparent : input.1.parentId = none)
    (hfallback : input.1.parentPathFallback = input.2)
    (hdone : state.addNode env fuel input = .done next) : next.Sorted := by
  obtain ⟨node, parentPath⟩ := input
  simp only [NodeState.addNode, Run.bind_eq_done_iff] at hdone
  obtain ⟨⟨nodeId, assigned⟩, hassigned, placed, hplaced, hresult⟩ := hdone
  obtain ⟨hnodes, -, hpaths, hroot⟩ := assignNodeId_eq hassigned
  have hindexed : ∀ path id, assigned.nodeIdByNodePath.lookup path = some id →
      id ∈ assigned.nodes := by
    rw [hnodes, hpaths]
    exact hsorted.indexed
  have hhangs := (@placeNode_hangs assigned { node with id := nodeId } placed (some placed.id)
    hindexed hparent hplaced fun _ => rfl).2
  have hproperties := placeNode_properties hplaced
  split at hresult
  · cases hresult
  next hfree =>
  cases hresult
  constructor
  · intro id found hfound
    by_cases heq : id = placed.id
    · subst heq
      rw [Finmap.lookup_insert] at hfound
      cases hfound
      exact ⟨rfl, hproperties ▸ hnumbered⟩
    · rw [Finmap.lookup_insert_of_ne _ heq, hnodes] at hfound
      exact hsorted.keyed id found hfound
  · intro path id hid
    rw [Finmap.mem_insert, hnodes]
    by_cases heq : path = indexedPath parentPath placed.name
    · rw [heq, Finmap.lookup_insert] at hid
      exact .inl (Option.some.inj hid).symm
    · rw [Finmap.lookup_insert_of_ne _ heq, hpaths] at hid
      exact .inr (hsorted.indexed path id hid)
  · intro root hsome
    by_cases hnone : parentPath = none
    · rw [if_pos hnone] at hsome
      cases hsome
      rw [show node.parentPathFallback = none from hfallback.trans hnone] at hhangs
      cases hhangs with
      | atRoot _ hself hfallback => exact ⟨placed, Finmap.lookup_insert _, hself, hfallback⟩
    · rw [if_neg hnone, hroot] at hsome
      obtain ⟨found, hfound, hself⟩ := hsorted.root root hsome
      have hne : root ≠ placed.id := by
        rintro rfl
        exact hfree (hnodes ▸ Finmap.mem_of_lookup_eq_some hfound)
      refine ⟨found, ?_, hself⟩
      rw [Finmap.lookup_insert_of_ne _ hne, hnodes]
      exact hfound

theorem sorted_empty (parsedNodeIds : Finset NodeId) :
    ({ parsedNodeIds := parsedNodeIds } : NodeState).Sorted where
  keyed := by simp
  indexed := by simp
  root := by simp

end NodeState

/-! ## The scene -/

namespace GodotScene

/-- No two properties of one node or resource have the same number, and no two resources of one
kind. -/
structure Numbered (scene : GodotScene) : Prop where
  nodes : ∀ id node, scene.nodes.lookup id = some node → Properties.Numbered node.properties
  extResources : ∃ bound, HashMap.NumberedBelow ExternalResourceNode.idx bound scene.extResources
  subResources : ∃ bound, HashMap.NumberedBelow SubResourceNode.idx bound scene.subResources
  subProperties : ∀ key resource, scene.subResources.lookup key = some resource →
    Properties.Numbered resource.properties
  mainProperties : ∀ resource, scene.mainResource = some resource →
    Properties.Numbered resource.properties

/-- A scene that hangs together. -/
structure WellFormed (scene : GodotScene) : Prop where
  numbered : scene.Numbered
  nodes : ∀ id node, scene.nodes.lookup id = some node → node.id = id
  tree : TreeConsistent scene.nodes
  parents : ∀ id node parentId, scene.nodes.lookup id = some node →
    node.parentId = some parentId → parentId ∈ scene.nodes
  children : ∀ id node childId, scene.nodes.lookup id = some node →
    childId ∈ node.childNodeIds → childId ∈ scene.nodes
  root : ∀ root, scene.rootNodeId = some root → ∃ node, scene.nodes.lookup root = some node ∧
    node.parentId = none ∧ node.parentPathFallback = none
  connections : ∀ key connection, scene.connections.lookup key = some connection →
    connection.id = key ∧ connection.fromNodeId ∈ scene.nodes ∧
      connection.toNodeId ∈ scene.nodes
  extResources : ∀ key resource, scene.extResources.lookup key = some resource →
    resource.id = key
  subResources : ∀ key resource, scene.subResources.lookup key = some resource →
    resource.id = key

end GodotScene

section Parse

variable {env : ParseEnv} {sections : List Section} {scene : GodotScene} {read : SectionState}
  {placed : NodeState}

theorem findParent_properties {paths : HashMap String NodeId} {node linked : GodotNode}
    (hdone : findParent paths node = .done linked) :
    linked.id = node.id ∧ linked.properties = node.properties := by
  unfold findParent at hdone
  split at hdone
  · split at hdone
    · cases hdone
      exact ⟨rfl, rfl⟩
    · split at hdone
      · cases hdone
        exact ⟨rfl, rfl⟩
      · cases hdone
  · cases hdone
    exact ⟨rfl, rfl⟩

/-- A node that hangs nowhere stays so. -/
theorem findParent_root {paths : HashMap String NodeId} {node linked : GodotNode}
    (hdone : findParent paths node = .done linked) (hparent : node.parentId = none)
    (hfallback : node.parentPathFallback = none) : linked = node := by
  unfold findParent at hdone
  rw [hparent, hfallback] at hdone
  exact (Run.done.inj hdone).symm

theorem PlacesNodes.sorted (hplaces : PlacesNodes env sections read placed) : placed.Sorted := by
  obtain ⟨hread, fuel, hplaces⟩ := hplaces
  have htidy := SectionState.tidy_of_foldlM hread
  apply Run.foldlM_induct hplaces (NodeState.sorted_empty _)
  intro state input next hinput hsorted hround
  obtain ⟨-, hparent, hfallback, -⟩ := fields_of_mem_nodeArr hread hinput
  exact hsorted.addNode (htidy.nodes input hinput) hparent hfallback hround

/-- The resources of a parsed scene are those that the sections gave. -/
theorem ParsesTo.exists_read (hparse : ParsesTo env sections scene) :
    ∃ read, sections.foldlM SectionState.readSection {} = .done read ∧
      scene.extResources = read.extResources ∧ scene.subResources = read.subResources ∧
      scene.mainResource = read.mainResource := by
  obtain ⟨fuel, hdone⟩ := hparse
  obtain ⟨read, hread, hrest⟩ := Run.bind_eq_done_iff.mp hdone
  obtain ⟨placed, -, hrest⟩ := Run.bind_eq_done_iff.mp hrest
  obtain ⟨nodes, -, hrest⟩ := Run.bind_eq_done_iff.mp hrest
  obtain ⟨connections, -, hrest⟩ := Run.bind_eq_done_iff.mp hrest
  refine ⟨read, hread, ?_⟩
  split at hrest
  · cases hrest
  · cases hrest
    exact ⟨rfl, rfl, rfl⟩

theorem LinkedFrom.child_mem (hlinked : LinkedFrom placed scene) {id childId : NodeId}
    {node : GodotNode} (hnode : scene.nodes.lookup id = some node)
    (hlisted : childId ∈ node.childNodeIds) : childId ∈ scene.nodes := by
  rw [hlinked.lookup] at hnode
  obtain ⟨found, -, rfl⟩ := Option.map_eq_some_iff.mp hnode
  have hkey := (List.mem_filter.mp hlisted).1
  exact (hlinked.mem_iff childId).mpr ((hlinked.wellPlaced.mem_iff childId).mp hkey)

theorem LinkedFrom.node (hlinked : LinkedFrom placed scene) (hsorted : placed.Sorted) {id : NodeId}
    {node : GodotNode} (hnode : scene.nodes.lookup id = some node) :
    node.id = id ∧ Properties.Numbered node.properties := by
  rw [hlinked.lookup] at hnode
  obtain ⟨found, hfound, rfl⟩ := Option.map_eq_some_iff.mp hnode
  obtain ⟨hid, hproperties⟩ := findParent_properties (hlinked.found id found hfound)
  obtain ⟨hself, hnumbered⟩ := hsorted.keyed id found hfound
  exact ⟨hid.trans hself, hproperties ▸ hnumbered⟩

theorem LinkedFrom.root (hlinked : LinkedFrom placed scene) (hsorted : placed.Sorted)
    {root : NodeId} (hroot : scene.rootNodeId = some root) :
    ∃ node, scene.nodes.lookup root = some node ∧ node.parentId = none ∧
      node.parentPathFallback = none := by
  obtain ⟨node, hnode, hparent, hfallback⟩ :=
    hsorted.root root (hlinked.rootNodeId.symm.trans hroot)
  have hself := findParent_root (hlinked.found root node hnode) hparent hfallback
  refine ⟨_, by rw [hlinked.lookup, hnode, Option.map_some], ?_⟩
  rw [hself]
  exact ⟨hparent, hfallback⟩

/-- A connection that was found stands under its id, and its ends are nodes of the scene. -/
theorem ParsesTo.connection (hparse : ParsesTo env sections scene) {key : String}
    {connection : GodotConnection} (hlookup : scene.connections.lookup key = some connection) :
    connection.id = key ∧ connection.fromNodeId ∈ scene.nodes ∧
      connection.toNodeId ∈ scene.nodes := by
  obtain ⟨read, placed, hplaces, input, -, hfound⟩ := hparse.foundIn hlookup
  obtain ⟨hfrom, hto⟩ := lookup_of_foundConnection hfound
  have hlinked := hplaces.linkedFrom hparse
  have hindexed := hplaces.sorted.indexed
  have hkey : connection.id = key := by
    obtain ⟨found, -, hconnections⟩ := hparse.exists_connections
    rw [hconnections] at hlookup
    obtain ⟨stored, -, heq⟩ := List.mem_map.mp (HashMap.mem_of_lookup_collect hlookup)
    cases heq
    rfl
  exact ⟨hkey, (hlinked.mem_iff _).mpr (hindexed _ _ hfrom),
    (hlinked.mem_iff _).mpr (hindexed _ _ hto)⟩

/-- The numbers of a parsed scene are all different. -/
theorem ParsesTo.numbered (hparse : ParsesTo env sections scene) : scene.Numbered := by
  obtain ⟨_, placed, hplaces, hlinked⟩ := hparse.exists_linkedFrom
  obtain ⟨read, hread, hext, hsub, hmain⟩ := hparse.exists_read
  have htidy := SectionState.tidy_of_foldlM hread
  constructor
  case nodes => exact fun id node hnode => (hlinked.node hplaces.sorted hnode).2
  case extResources => exact ⟨_, hext ▸ htidy.extNumbered⟩
  case subResources => exact ⟨_, hsub ▸ htidy.subNumbered⟩
  case subProperties =>
    rw [hsub]
    exact fun key resource hresource => (htidy.subKeyed key resource hresource).2
  case mainProperties => exact hmain ▸ htidy.mainResource

/-- **Whatever is accepted is well formed.** -/
theorem ParsesTo.wellFormed (hparse : ParsesTo env sections scene) : scene.WellFormed := by
  obtain ⟨_, placed, hplaces, hlinked⟩ := hparse.exists_linkedFrom
  obtain ⟨read, hread, hext, hsub, -⟩ := hparse.exists_read
  have hsorted := hplaces.sorted
  have htidy := SectionState.tidy_of_foldlM hread
  constructor
  case numbered => exact hparse.numbered
  case nodes => exact fun id node hnode => (hlinked.node hsorted hnode).1
  case tree => exact hparse.treeConsistent
  case parents => exact fun id node parentId hnode hparent => hparse.parent_mem hnode hparent
  case children => exact fun id node childId hnode hlisted => hlinked.child_mem hnode hlisted
  case root => exact fun root hroot => hlinked.root hsorted hroot
  case connections => exact fun key connection hlookup => hparse.connection hlookup
  case extResources => exact hext ▸ htidy.extKeyed
  case subResources =>
    rw [hsub]
    exact fun key resource hresource => (htidy.subKeyed key resource hresource).1

theorem wellFormed_menuScene : menuScene.WellFormed := ParsesTo.wellFormed parsesTo_menuScene

end Parse

/-! ## What the text depends on -/

/-- Entries that have numbers of their own never tie. -/
theorem HashMap.NumberedBelow.tiesCommute {κ : Type*} {ν : Type*} [DecidableEq κ] {number : ν → ℤ}
    {bound : ℤ} {map : HashMap κ ν} (hmap : NumberedBelow number bound map)
    (text : Entry κ ν → String) : map.TiesCommute (fun entry => number entry.2) text := by
  rintro ⟨first, one⟩ ⟨second, two⟩ hone htwo hsame
  obtain rfl := hmap.inj first second one two hone htwo hsame
  obtain rfl := Option.some.inj (hone.symm.trans htwo)
  rfl

theorem Properties.Numbered.tiesCommute {properties : Properties}
    (hnumbered : Properties.Numbered properties) : properties.TiesCommute := by
  obtain ⟨bound, hbelow⟩ := hnumbered
  exact hbelow.tiesCommute propertyText

namespace GodotScene

variable {scene : GodotScene}

variable (scene) in
/-- Wherever two connections have the same ends by visit, signal and method, their sections can be
written in either order. -/
def ConnectionTiesCommute : Prop :=
  scene.mainResource = none → ∀ fuel visits text, scene.rootVisits fuel = .done visits →
    scene.ConnectionTexts fuel text → scene.connections.TiesCommute
      (fun entry => connectionKey (positions visits) entry.2) text

theorem Numbered.tiesCommute (hnumbered : scene.Numbered) (hties : scene.ConnectionTiesCommute) :
    scene.TiesCommute := by
  obtain ⟨extBound, hext⟩ := hnumbered.extResources
  obtain ⟨subBound, hsub⟩ := hnumbered.subResources
  constructor
  case extResources => exact hext.tiesCommute _
  case subResourceProperties =>
    exact fun key resource hresource => (hnumbered.subProperties key resource hresource).tiesCommute
  case subResources => exact fun orders _ => hsub.tiesCommute _
  case mainResourceProperties =>
    exact fun resource hresource => (hnumbered.mainProperties resource hresource).tiesCommute
  case nodeProperties =>
    exact fun _ _ key node _ _ hnode => (hnumbered.nodes key node hnode).tiesCommute
  case connections => exact hties

/-- A scene whose connections can be written can be written. -/
theorem writable_of_outline (hmain : scene.mainResource = none) {fuel : ℕ} {visits : List Visit}
    {text : Entry String GodotConnection → String} (hvisits : scene.rootVisits fuel = .done visits)
    (htext : scene.ConnectionTexts fuel text) : scene.Writable := by
  obtain ⟨orders, horders⟩ := IterationOrders.exists_of scene
  exact (exists_serializes_iff horders).mp
    ⟨_, fuel, serialize_of_outline hmain hvisits htext horders⟩

end GodotScene

section Parse

open GodotScene

variable {env : ParseEnv} {sections : List Section} {scene : GodotScene}

/-- **The text of a scene that was read depends on iteration orders by its connections alone.** -/
theorem ParsesTo.dependsOnConnections (hparse : ParsesTo env sections scene) :
    scene.SerializesAlike ↔ scene.ConnectionTiesCommute := by
  constructor
  · intro halike hmain fuel visits text hvisits htext
    have hwritable := writable_of_outline hmain hvisits htext
    exact (ties_of_serializesAlike hwritable halike).connections hmain fuel visits text hvisits
      htext
  · intro hconnections first second hfirst hsecond text
    have hties := hparse.numbered.tiesCommute hconnections
    constructor
    · exact fun hserializes => hserializes.of_ties hties hfirst hsecond
    · exact fun hserializes => hserializes.of_ties hties hsecond hfirst

theorem dependsOnConnections_menuScene :
    menuScene.SerializesAlike ↔ menuScene.ConnectionTiesCommute :=
  ParsesTo.dependsOnConnections parsesTo_menuScene

end Parse

end Backstitch
