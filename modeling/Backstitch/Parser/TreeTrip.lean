/-
# Trees come back

The text of a scene stores the tree as paths of names, and the order of children as the order
of sections.  Both are enough: whoever reads the sections of a plain tree gets the tree again,
and finds the two nodes of every connection.
-/

import Backstitch.Parser.TypedNodes
import Backstitch.Parser.WrittenHeadings

namespace Backstitch

open SectionState NodeState

/-! ## The written sections -/

section Kinds

variable {α : Type} {scene : GodotScene} {orders : IterationOrders} {visits : List Visit}
  {connections : List (List Attribute)}

/-- The sections of one kind among sections of one kind. -/
theorem filter_map_identifier (f : α → Section) (items : List α) {identifier : String}
    (hidentifier : ∀ item, (f item).identifier = identifier) (kind : String) :
    (items.map f).filter (fun input => decide (input.identifier = kind)) =
      if identifier = kind then items.map f else [] := by
  split
  · next hkind =>
    rw [List.filter_eq_self]
    intro input hinput
    obtain ⟨item, -, rfl⟩ := List.mem_map.mp hinput
    exact decide_eq_true ((hidentifier item).trans hkind)
  · next hkind =>
    rw [List.filter_eq_nil_iff]
    intro input hinput
    obtain ⟨item, -, rfl⟩ := List.mem_map.mp hinput
    rw [hidentifier item]
    simpa using hkind

theorem headerIdentifier_cases (scene : GodotScene) :
    scene.headerIdentifier = "gd_scene" ∨ scene.headerIdentifier = "gd_resource" := by
  unfold GodotScene.headerIdentifier
  split
  · exact .inr rfl
  · exact .inl rfl

theorem nodeSectionsOf_sectionsWith :
    nodeSectionsOf (scene.sectionsWith orders visits connections) =
      visits.map (Visit.toSection orders) := by
  have hheader : scene.headerSection.identifier ≠ "node" := by
    rcases headerIdentifier_cases scene with hid | hid <;>
      simp [GodotScene.headerSection, hid]
  simp [nodeSectionsOf, GodotScene.sectionsWith, GodotScene.extResourceSections,
    GodotScene.subResourceSections, hheader,
    filter_map_identifier extResourceSection _ (fun _ => rfl),
    filter_map_identifier (subResourceSection orders) _ (fun _ => rfl),
    filter_map_identifier (Visit.toSection orders) _ (fun _ => rfl),
    filter_map_identifier connectionSection _ (fun _ => rfl),
    filter_map_identifier editableSection _ (fun _ => rfl)]

theorem connectionSectionsOf_sectionsWith :
    connectionSectionsOf (scene.sectionsWith orders visits connections) =
      connections.map connectionSection := by
  have hheader : scene.headerSection.identifier ≠ "connection" := by
    rcases headerIdentifier_cases scene with hid | hid <;>
      simp [GodotScene.headerSection, hid]
  simp [connectionSectionsOf, GodotScene.sectionsWith, GodotScene.extResourceSections,
    GodotScene.subResourceSections, hheader,
    filter_map_identifier extResourceSection _ (fun _ => rfl),
    filter_map_identifier (subResourceSection orders) _ (fun _ => rfl),
    filter_map_identifier (Visit.toSection orders) _ (fun _ => rfl),
    filter_map_identifier connectionSection _ (fun _ => rfl),
    filter_map_identifier editableSection _ (fun _ => rfl)]

end Kinds

namespace GodotScene

variable (scene : GodotScene)

/-- The attributes of a connection, with the paths of its two ends. -/
def WritesEnds (root : NodeId) (connection : GodotConnection) (attributes : List Attribute) :
    Prop :=
  ∃ fromPath toPath, attributes = connectionAttributesWith connection fromPath toPath ∧
    scene.PathTo root connection.fromNodeId fromPath ∧
    scene.PathTo root connection.toNodeId toPath

/-- What the first pass makes of the section of a node. -/
structure InputOf (root key : NodeId) (input : GodotNode × Option String) : Prop where
  id : input.1.id = key
  typed : Typed input
  parentId : input.1.parentId = none
  fallback : input.1.parentPathFallback = input.2
  lookup : ∃ node, scene.nodes.lookup key = some node ∧ input.1.name = node.name ∧
    scene.NamesParent root node input.2

variable {scene} {root : NodeId} {orders : IterationOrders} {visits : List Visit}
  {connections : List (List Attribute)}

/-- Every connection is written with the paths of its ends. -/
theorem IsPlainTree.writesEnds (htree : scene.IsPlainTree root) {connection : GodotConnection}
    (hfrom : connection.fromNodeId ∈ scene.nodes) (hto : connection.toNodeId ∈ scene.nodes)
    {fuel : ℕ} {attributes : List Attribute}
    (hdone : scene.connectionAttributes fuel connection = .done attributes) :
    scene.WritesEnds root connection attributes := by
  obtain ⟨fromPath, hfromPath, hrest⟩ := Run.bind_eq_done_iff.mp hdone
  obtain ⟨toPath, htoPath, hresult⟩ := Run.bind_eq_done_iff.mp hrest
  cases hresult
  exact ⟨fromPath, toPath, rfl, htree.pathTo_of_getNodePath hfrom hfromPath,
    htree.pathTo_of_getNodePath hto htoPath⟩

/-- All sections that the grammar can return are accepted. -/
theorem accepted_sectionsWith (hlower : -2 ^ 63 ≤ scene.format) (hupper : scene.format < 2 ^ 63)
    (hvisits : ∀ visit ∈ visits, ∃ parentPath, scene.VisitsNode root visit parentPath)
    (hconnections : ∀ attributes ∈ connections, ∃ connection,
      scene.WritesEnds root connection attributes)
    (hlexical : ∀ input ∈ scene.sectionsWith orders visits connections, input.Lexical) :
    ∀ input ∈ scene.sectionsWith orders visits connections, input.Accepted := by
  intro input hinput
  have hself := hlexical input hinput
  simp only [sectionsWith, extResourceSections, subResourceSections, List.cons_append,
    List.mem_cons, List.mem_append, List.mem_map] at hinput
  rcases hinput with rfl | ((⟨_, -, rfl⟩ | ⟨_, -, rfl⟩) | ⟨visit, hvisit, rfl⟩) |
    ⟨attributes, hattributes, rfl⟩ | ⟨_, -, rfl⟩
  · exact accepted_headerSection hself hlower hupper
  · exact accepted_extResourceSection hself
  · exact accepted_subResourceSection hself
  · obtain ⟨parentPath, hnode⟩ := hvisits visit hvisit
    exact hnode.accepted hself
  · obtain ⟨connection, fromPath, toPath, rfl, -, -⟩ := hconnections attributes hattributes
    exact accepted_connectionSection hself
  · exact accepted_editableSection hself

/-- The first pass reads the nodes in the order in which they were visited. -/
theorem IsPlainTree.inputs_of_foldlM (htree : scene.IsPlainTree root)
    (hlists : scene.ListsTree (visits.map Visit.key))
    (hvisits : ∀ visit ∈ visits, ∃ parentPath, scene.VisitsNode root visit parentPath)
    {read : SectionState}
    (hdone : (scene.sectionsWith orders visits connections).foldlM readSection {} = .done read) :
    List.Forall₂ (scene.InputOf root) (visits.map Visit.key) read.nodeArr := by
  have hkey : ∀ visit ∈ visits, (⟨visit.node.id.id, none⟩ : NodeId) = visit.key := by
    intro visit hvisit
    obtain ⟨parentPath, hnode⟩ := hvisits visit hvisit
    have hplain := htree.plain _ _ hnode.lookup
    rw [← htree.keyed _ _ hnode.lookup, ← hplain.unqualified]
  have hids : (nodeSectionsOf (scene.sectionsWith orders visits connections)).map nodeIdOf =
      visits.map Visit.key := by
    rw [nodeSectionsOf_sectionsWith, List.map_map]
    apply List.map_congr_left
    intro visit hvisit
    obtain ⟨parentPath, hnode⟩ := hvisits visit hvisit
    have hheads : HeadsNode (visit.toSection orders) visit.node parentPath := hnode.headsNode
    rw [Function.comp_apply, nodeIdOf, hheads.uniqueId]
    simp [hkey visit hvisit]
  have hread := readsNodes_of_foldlM hdone (hids ▸ hlists.nodup)
  rw [nodeSectionsOf_sectionsWith, List.forall₂_map_left_iff] at hread
  rw [List.forall₂_map_left_iff, List.forall₂_iff_zip]
  refine ⟨hread.length_eq, fun {visit entry} hzip => ?_⟩
  have hvisit := (List.of_mem_zip hzip).1
  have hentry := (List.of_mem_zip hzip).2
  obtain ⟨parentPath, hnode⟩ := hvisits visit hvisit
  have hheads : HeadsNode (visit.toSection orders) visit.node parentPath := hnode.headsNode
  have hback := hheads.readsBack ((List.forall₂_iff_zip.mp hread).2 hzip)
  have hplain := htree.plain _ _ hnode.lookup
  obtain ⟨-, hparent, hfallback, -⟩ := fields_of_mem_nodeArr hdone hentry
  have hid : entry.1.id = visit.key := hback.id.trans (hkey visit hvisit)
  constructor
  · exact hid
  · refine ⟨hback.typed hplain.typed, fun hunassigned => hplain.nonzero ?_⟩
    exact congrArg NodeId.id (hback.id.symm.trans hunassigned)
  · exact hparent
  · exact hfallback
  · exact ⟨visit.node, hnode.lookup, hback.name, hback.parentPath ▸ hnode.namesParent⟩

/-! ## The index -/

section Index

variable {keys : List NodeId} {inputs : List (GodotNode × Option String)} {placed : NodeState}

/-- A node is indexed under its path. -/
theorem IsTree.pathTo_sectionPath (htree : scene.IsTree root) {key : NodeId}
    {input : GodotNode × Option String} (hinput : scene.InputOf root key input) :
    scene.PathTo root key (sectionPath input) := by
  obtain ⟨node, hnode, hname, hparent⟩ := hinput.lookup
  rw [sectionPath, hname]
  exact htree.pathTo_indexedPath hnode hparent

theorem map_id_of_inputs (hinputs : List.Forall₂ (scene.InputOf root) keys inputs) :
    inputs.map (fun input => input.1.id) = keys := by
  induction hinputs with
  | nil => rfl
  | cons hfirst _ ih => rw [List.map_cons, hfirst.id, ih]

theorem inputOf_of_mem (hinputs : List.Forall₂ (scene.InputOf root) keys inputs)
    {input : GodotNode × Option String} (hinput : input ∈ inputs) :
    scene.InputOf root input.1.id input := by
  obtain ⟨key, -, hkey⟩ := exists_of_mem_right hinputs hinput
  rwa [hkey.id]

theorem exists_input_of_mem (hinputs : List.Forall₂ (scene.InputOf root) keys inputs)
    {key : NodeId} (hkey : key ∈ keys) : ∃ input ∈ inputs, scene.InputOf root key input := by
  rw [← map_id_of_inputs hinputs] at hkey
  obtain ⟨input, hmem, rfl⟩ := List.mem_map.mp hkey
  exact ⟨input, hmem, inputOf_of_mem hinputs hmem⟩

/-- **The index of the parser is that of the paths in the tree.** -/
theorem IsPlainTree.lookup_paths_iff (htree : scene.IsPlainTree root)
    (hlists : scene.ListsTree keys) (hinputs : List.Forall₂ (scene.InputOf root) keys inputs)
    (hcollects : Collects inputs placed) {path : String} {id : NodeId} :
    placed.nodeIdByNodePath.lookup path = some id ↔
      id ∈ scene.nodes ∧ scene.PathTo root id path := by
  have hids := map_id_of_inputs hinputs
  have hnodup : ((inputs.map fun input =>
      (⟨sectionPath input, input.1.id⟩ : Entry String NodeId)).map Sigma.fst).Nodup := by
    rw [List.map_map]
    apply List.Nodup.map_on _ (List.Nodup.of_map _ (hids ▸ hlists.nodup))
    intro first hfirst second hsecond hsame
    have hone := htree.pathTo_sectionPath (inputOf_of_mem hinputs hfirst)
    have htwo := htree.pathTo_sectionPath (inputOf_of_mem hinputs hsecond)
    have hpaths : sectionPath first = sectionPath second := hsame
    rw [hpaths] at hone
    exact List.inj_on_of_nodup_map (hids ▸ hlists.nodup) hfirst hsecond
      (htree.pathTo_inj hone htwo)
  rw [hcollects.paths, HashMap.lookup_collect hnodup, List.mem_map, ← hlists.mem_iff]
  constructor
  · rintro ⟨input, hmem, heq⟩
    cases heq
    have hinput := inputOf_of_mem hinputs hmem
    exact ⟨hids ▸ List.mem_map_of_mem hmem, htree.pathTo_sectionPath hinput⟩
  · rintro ⟨hid, hpath⟩
    obtain ⟨input, hmem, hinput⟩ := exists_input_of_mem hinputs hid
    refine ⟨input, hmem, ?_⟩
    rw [htree.pathTo_unique hpath (htree.pathTo_sectionPath hinput), hinput.id]

/-- Every node finds the parent that it has in the tree. -/
theorem IsPlainTree.findParent_eq (htree : scene.IsPlainTree root)
    (hlists : scene.ListsTree keys) (hinputs : List.Forall₂ (scene.InputOf root) keys inputs)
    (hcollects : Collects inputs placed) {key : NodeId} {input : GodotNode × Option String}
    (hinput : scene.InputOf root key input) :
    ∃ linked, findParent placed.nodeIdByNodePath input.1 = .done linked ∧
      linked.parentId = scene.namedParent key := by
  obtain ⟨node, hnode, -, hparent⟩ := hinput.lookup
  have hnamed : scene.namedParent key = node.parentId := by
    rw [namedParent, hnode, Option.bind_some]
  unfold findParent
  rw [hinput.parentId, hinput.fallback, hnamed]
  generalize input.2 = parentPath at hparent
  cases hparent with
  | none hnone => exact ⟨_, rfl, hinput.parentId.trans hnone.symm⟩
  | some hsome hpath =>
      have hindexed := (htree.lookup_paths_iff hlists hinputs hcollects).mpr
        ⟨htree.parent_mem hnode hsome, hpath⟩
      simp only [hindexed]
      exact ⟨_, rfl, hsome.symm⟩

theorem lookup_nodes_of_input (hlists : scene.ListsTree keys)
    (hinputs : List.Forall₂ (scene.InputOf root) keys inputs) (hcollects : Collects inputs placed)
    {key : NodeId} (hkey : key ∈ keys) :
    ∃ node, placed.nodes.lookup key = some node ∧ ∃ input, scene.InputOf root key input ∧
      input.1 = node := by
  have hids := map_id_of_inputs hinputs
  have hnodup : ((inputs.map fun input =>
      (⟨input.1.id, input.1⟩ : Entry NodeId GodotNode)).map Sigma.fst).Nodup := by
    rw [List.map_map]
    exact hids ▸ hlists.nodup
  obtain ⟨input, hmem, hinput⟩ := exists_input_of_mem hinputs hkey
  refine ⟨input.1, ?_, input, hinput, rfl⟩
  rw [hcollects.nodes, HashMap.lookup_collect hnodup, List.mem_map]
  exact ⟨input, hmem, by rw [hinput.id]⟩

/-- The parents that the nodes find are those of the tree. -/
theorem IsPlainTree.parentOf_eq (htree : scene.IsPlainTree root)
    (hlists : scene.ListsTree keys) (hinputs : List.Forall₂ (scene.InputOf root) keys inputs)
    (hcollects : Collects inputs placed) {key : NodeId} (hkey : key ∈ keys) :
    parentOf placed.nodeIdByNodePath placed.nodes key = scene.namedParent key := by
  obtain ⟨_, hnode, input, hinput, rfl⟩ := lookup_nodes_of_input hlists hinputs hcollects hkey
  obtain ⟨linked, hlinked, hparent⟩ := htree.findParent_eq hlists hinputs hcollects hinput
  rw [parentOf, hnode, Option.bind_some, linkedNode_eq hlinked, hparent]

/-- All nodes are linked. -/
theorem IsPlainTree.exists_linked (htree : scene.IsPlainTree root)
    (hlists : scene.ListsTree keys) (hinputs : List.Forall₂ (scene.InputOf root) keys inputs)
    (hcollects : Collects inputs placed) :
    ∃ nodes, placed.keys.foldlM (linkNode placed.nodeIdByNodePath) placed.nodes = .done nodes := by
  have hkeys : placed.keys = keys := hcollects.keys.trans (map_id_of_inputs hinputs)
  rw [hkeys]
  apply exists_foldlM_linkNode hlists.nodup
  intro key hkey
  obtain ⟨_, hnode, input, hinput, rfl⟩ := lookup_nodes_of_input hlists hinputs hcollects hkey
  obtain ⟨linked, hlinked, hparent⟩ := htree.findParent_eq hlists hinputs hcollects hinput
  refine ⟨input.1, linked, hnode, hlinked, fun parentId hsome => ?_⟩
  obtain ⟨node, hlookup, hnamed⟩ := namedParent_eq_some_iff.mp (hparent.symm.trans hsome)
  obtain ⟨parent, hfound, -⟩ := lookup_nodes_of_input hlists hinputs hcollects
    ((hlists.mem_iff parentId).mpr (htree.parent_mem hlookup hnamed))
  exact Finmap.mem_of_lookup_eq_some hfound

end Index

/-! ## The tree comes back -/

/-- Two scenes with one tree: the same nodes with the same parents and children. -/
structure SameTree (scene other : GodotScene) : Prop where
  rootNodeId : other.rootNodeId = scene.rootNodeId
  parents : ∀ id, (other.nodes.lookup id).map GodotNode.parentId =
    (scene.nodes.lookup id).map GodotNode.parentId
  children : ∀ id, (other.nodes.lookup id).map GodotNode.childNodeIds =
    (scene.nodes.lookup id).map GodotNode.childNodeIds

/-- The ends that a connection section names are found, and are those of the connection. -/
structure ResolvesTo (placed : NodeState) (input : Section) (connection : GodotConnection) :
    Prop where
  fromPath : ∃ path, input.required "from" "connection section" = .done path ∧
    placed.nodeIdByNodePath.lookup path = some connection.fromNodeId
  toPath : ∃ path, input.required "to" "connection section" = .done path ∧
    placed.nodeIdByNodePath.lookup path = some connection.toNodeId

section Back

variable {keys : List NodeId} {inputs : List (GodotNode × Option String)} {placed : NodeState}
  {parsed : GodotScene}

theorem IsPlainTree.placed_rootNodeId (htree : scene.IsPlainTree root)
    (hlists : scene.ListsTree keys) (hinputs : List.Forall₂ (scene.InputOf root) keys inputs)
    (hcollects : Collects inputs placed) : placed.rootNodeId = some root := by
  apply hcollects.rooted root
  · intro input hmem hnone
    obtain ⟨node, hnode, -, hparent⟩ := (inputOf_of_mem hinputs hmem).lookup
    rw [hnone] at hparent
    cases hparent with
    | none hparent => exact htree.eq_root hnode hparent
  · obtain ⟨input, hmem, hinput⟩ :=
      exists_input_of_mem hinputs ((hlists.mem_iff root).mpr htree.root_mem)
    obtain ⟨node, hnode, -, hparent⟩ := hinput.lookup
    refine ⟨input, hmem, ?_⟩
    generalize input.2 = parentPath at hparent
    cases hparent with
    | none _ => rfl
    | some hsome _ => exact absurd ⟨node, hnode, hsome⟩ (htree.not_parentStep_root _)

/-- **The nodes that are linked make up the tree that was written.** -/
theorem IsPlainTree.sameTree (htree : scene.IsPlainTree root)
    (hlists : scene.ListsTree keys) (hinputs : List.Forall₂ (scene.InputOf root) keys inputs)
    (hcollects : Collects inputs placed) (hlinked : LinkedFrom placed parsed) :
    SameTree scene parsed := by
  have hkeys : placed.keys = keys := hcollects.keys.trans (map_id_of_inputs hinputs)
  have hmem : ∀ id, id ∈ placed.nodes ↔ id ∈ scene.nodes := by
    intro id
    rw [← hlinked.wellPlaced.mem_iff, hkeys, hlists.mem_iff]
  -- What both scenes say of a node that is there.
  have hnodes : ∀ id node, scene.nodes.lookup id = some node → ∃ found,
      parsed.nodes.lookup id = some found ∧ found.parentId = node.parentId ∧
        found.childNodeIds = node.childNodeIds := by
    intro id node hnode
    have hid := (hlists.mem_iff id).mpr (Finmap.mem_of_lookup_eq_some hnode)
    obtain ⟨placedNode, hplaced, -⟩ := lookup_nodes_of_input hlists hinputs hcollects hid
    have hparent := htree.parentOf_eq hlists hinputs hcollects hid
    rw [parentOf, hplaced, Option.bind_some, namedParent, hnode, Option.bind_some] at hparent
    have hchildren : (placed.keys.filter fun uid => decide
        (parentOf placed.nodeIdByNodePath placed.nodes uid = some id)) = node.childNodeIds := by
      have hlisted : scene.listedChildren id = node.childNodeIds := by
        rw [listedChildren, hnode, Option.map_some, Option.getD_some]
      rw [← hlisted, ← hlists.children id (Finmap.mem_of_lookup_eq_some hnode), hkeys]
      apply List.filter_congr
      intro uid huid
      rw [htree.parentOf_eq hlists hinputs hcollects huid]
    have hparsed := hlinked.lookup id
    rw [hplaced, Option.map_some, hchildren] at hparsed
    exact ⟨_, hparsed, hparent, rfl⟩
  have habsent : ∀ id, scene.nodes.lookup id = none → parsed.nodes.lookup id = none := by
    intro id hnone
    have hout : id ∉ placed.nodes := fun hin =>
      Finmap.lookup_eq_none.mp hnone ((hmem id).mp hin)
    rw [hlinked.lookup, Finmap.lookup_eq_none.mpr hout, Option.map_none]
  refine ⟨?_, fun id => ?_, fun id => ?_⟩
  · rw [hlinked.rootNodeId, htree.placed_rootNodeId hlists hinputs hcollects, htree.rootNodeId]
  · cases hnode : scene.nodes.lookup id with
    | none => rw [habsent id hnode]
    | some node =>
        obtain ⟨found, hfound, hparent, -⟩ := hnodes id node hnode
        rw [hfound, Option.map_some, Option.map_some, hparent]
  · cases hnode : scene.nodes.lookup id with
    | none => rw [habsent id hnode]
    | some node =>
        obtain ⟨found, hfound, -, hchildren⟩ := hnodes id node hnode
        rw [hfound, Option.map_some, Option.map_some, hchildren]

/-- The ends of a connection that was written are found again. -/
theorem IsPlainTree.resolvesTo (htree : scene.IsPlainTree root)
    (hlists : scene.ListsTree keys) (hinputs : List.Forall₂ (scene.InputOf root) keys inputs)
    (hcollects : Collects inputs placed) {connection : GodotConnection}
    {attributes : List Attribute} (hfrom : connection.fromNodeId ∈ scene.nodes)
    (hto : connection.toNodeId ∈ scene.nodes)
    (hwrites : scene.WritesEnds root connection attributes) :
    ResolvesTo placed (connectionSection attributes) connection := by
  obtain ⟨fromPath, toPath, rfl, hfromPath, htoPath⟩ := hwrites
  have hheads := headsConnection connection fromPath toPath
  constructor
  · refine ⟨fromPath, Section.required_of_quoted hheads.fromPath _, ?_⟩
    exact (htree.lookup_paths_iff hlists hinputs hcollects).mpr ⟨hfrom, hfromPath⟩
  · refine ⟨toPath, Section.required_of_quoted hheads.toPath _, ?_⟩
    exact (htree.lookup_paths_iff hlists hinputs hcollects).mpr ⟨hto, htoPath⟩

end Back

/-- The connections of a pass all of whose ends are found are added. -/
theorem exists_foldlM_addConnection (env : ParseEnv) {paths : HashMap String NodeId}
    {entries : List (String × String × GodotConnection)}
    (hends : ∀ entry ∈ entries, entry.1 ∈ paths ∧ entry.2.1 ∈ paths) :
    ∃ connections, entries.foldlM (addConnection env paths) ∅ = .done connections := by
  obtain ⟨connections, hdone, -⟩ := @Run.exists_foldlM_done _ _ (addConnection env paths)
    (fun _ _ => True) entries ∅ trivial fun before entry after state hentries _ => by
      obtain ⟨hfrom, hto⟩ := hends entry (by rw [hentries]; simp)
      obtain ⟨fromNodeId, hfromNode⟩ := Finmap.mem_iff.mp hfrom
      obtain ⟨toNodeId, htoNode⟩ := Finmap.mem_iff.mp hto
      simp only [addConnection, hfromNode, htoNode]
      exact ⟨_, rfl, trivial⟩
  exact ⟨connections, hdone⟩

variable (scene) in
/-- The tree comes back from these sections, and so do the two nodes of every connection.  The
connections have one section each. -/
def ComesBack (env : ParseEnv) (sections : List Section) : Prop :=
  ∃ read placed parsed, PlacesNodes env sections read placed ∧ ParsesTo env sections parsed ∧
    SameTree scene parsed ∧
    ∃ written : List (Entry String GodotConnection), scene.connections.Iterates written ∧
      List.Forall₂ (fun entry input =>
        (∃ fromPath toPath,
          input.attributes = connectionAttributesWith entry.2 fromPath toPath) ∧
        ResolvesTo placed input entry.2) written (connectionSectionsOf sections)

/-- The passes over sections that were read lead to a scene. -/
theorem exists_parsesTo {env : ParseEnv} {sections : List Section} {read : SectionState}
    {placed : NodeState} (hplaces : PlacesNodes env sections read placed)
    {nodes : HashMap NodeId GodotNode}
    (hnodes : placed.keys.foldlM (linkNode placed.nodeIdByNodePath) placed.nodes = .done nodes)
    {connections : HashMap String GodotConnection}
    (hconnections : read.connectionsArr.foldlM (addConnection env placed.nodeIdByNodePath) ∅ =
      .done connections) (hheader : read.sceneMetadata ≠ none) :
    ∃ parsed, ParsesTo env sections parsed := by
  obtain ⟨hread, fuel, hplaced⟩ := hplaces
  obtain ⟨metadata, hmetadata⟩ := Option.ne_none_iff_exists'.mp hheader
  have hdone : ∃ parsed, parseScene env fuel sections = .done parsed := by
    rw [parseScene, hread, Run.done_bind, hplaced, Run.done_bind, hnodes, Run.done_bind,
      hconnections, Run.done_bind, hmetadata]
    exact ⟨_, rfl⟩
  obtain ⟨parsed, hparsed⟩ := hdone
  exact ⟨parsed, fuel, hparsed⟩

end GodotScene

/-- **The grammar can return the sections unless a text that is written as it stands is a lone
quotation mark.** -/
theorem GodotScene.IsPlainTree.lexical {scene : GodotScene} {root : NodeId}
    {orders : IterationOrders} (htree : scene.IsPlainTree root) (horders : orders.Of scene)
    (hends : ∀ key connection, scene.connections.lookup key = some connection →
      connection.fromNodeId ∈ scene.nodes ∧ connection.toNodeId ∈ scene.nodes)
    (hnodes : ∀ id node, scene.nodes.lookup id = some node → "\"" ∉ node.rawTexts)
    (hbinds : ∀ key connection, scene.connections.lookup key = some connection →
      "\"" ∉ connection.binds.toList) {fuel : ℕ} {sections : List Section}
    (hwritten : scene.writtenSections orders fuel = .done sections) :
    ∀ input ∈ sections, input.Lexical := by
  obtain ⟨visits, hvisits, hrest⟩ := Run.bind_eq_done_iff.mp hwritten
  obtain ⟨connections, hconnections, hresult⟩ := Run.bind_eq_done_iff.mp hrest
  cases hresult
  obtain ⟨rootNode, hrootNode, hrootVisits⟩ := htree.rootVisits_eq fuel
  obtain ⟨-, hvisited⟩ := htree.visits_spec hrootNode (hrootVisits ▸ hvisits)
  have hother : ∀ input ∈ scene.headerSection :: GodotScene.extResourceSections orders ++
      GodotScene.subResourceSections orders ++ scene.editableInstances.map editableSection,
      input.Lexical := fun _ hinput => lexical_otherSections scene hinput
  intro input hinput
  simp only [GodotScene.sectionsWith, List.cons_append, List.mem_cons, List.mem_append,
    List.mem_map] at hinput
  rcases hinput with rfl | ((hext | hsub) | ⟨visit, hvisit, rfl⟩) |
    ⟨attributes, hattributes, rfl⟩ | heditable
  · exact hother _ (by simp)
  · exact hother _ (by simp [hext])
  · exact hother _ (by simp [hsub])
  · obtain ⟨parentPath, hnode⟩ := hvisited visit hvisit
    exact hnode.lexical (hnodes _ _ hnode.lookup)
  · obtain ⟨entry, hentry, hdone⟩ := Run.exists_of_mem_mapM hconnections hattributes
    have hlookup := (GodotScene.mem_sortedConnections horders).mp hentry
    obtain ⟨hfrom, hto⟩ := hends _ _ hlookup
    obtain ⟨fromPath, toPath, rfl, -, -⟩ := htree.writesEnds hfrom hto hdone
    exact lexical_connectionSection (hbinds _ _ hlookup)
  · exact hother _ (by simpa using .inr (.inr (.inr heditable)))

/-! ## A tree with two nodes of one name -/

/-- The nodes of a tree with an `A` below another `A`. -/
def familyEntries : List (Entry NodeId GodotNode) :=
  [⟨⟨1, none⟩, { GodotNode.bare ⟨1, none⟩ "Root" none [⟨2, none⟩, ⟨3, none⟩] with
      typeOrInstance := some (.ofType "Node") }⟩,
    ⟨⟨2, none⟩, { GodotNode.bare ⟨2, none⟩ "A" (some ⟨1, none⟩) [⟨4, none⟩] with
      typeOrInstance := some (.ofType "Node") }⟩,
    ⟨⟨3, none⟩, { GodotNode.bare ⟨3, none⟩ "B" (some ⟨1, none⟩) [] with
      typeOrInstance := some (.ofType "Node") }⟩,
    ⟨⟨4, none⟩, { GodotNode.bare ⟨4, none⟩ "A" (some ⟨2, none⟩) [] with
      typeOrInstance := some (.ofType "Node") }⟩]

def familyConnection : GodotConnection where
  signal := "ready"
  fromNodeId := ⟨4, none⟩
  toNodeId := ⟨1, none⟩
  method := "start"
  flags := none
  fromUidPath := none
  toUidPath := none
  unbinds := none
  binds := none

def familyScene : GodotScene where
  loadSteps := 0
  format := 3
  uid := "uid://family"
  scriptClass := none
  resourceType := "PackedScene"
  rootNodeId := some ⟨1, none⟩
  extResources := ∅
  subResources := ∅
  connections := HashMap.collect [⟨"ready", familyConnection⟩]
  editableInstances := []
  mainResource := none
  nodes := HashMap.collect familyEntries

theorem mem_familyEntries {id : NodeId} {node : GodotNode}
    (hnode : familyScene.nodes.lookup id = some node) :
    (⟨id, node⟩ : Entry NodeId GodotNode) ∈ familyEntries :=
  HashMap.mem_of_lookup_collect hnode

theorem isPlainTree_familyScene : familyScene.IsPlainTree ⟨1, none⟩ := by
  have heach : ∀ entry ∈ familyEntries, entry.2.id = entry.1 ∧ entry.2.typeOrInstance ≠ none ∧
      entry.2.id.id ≠ 0 ∧ entry.2.id.rootInstanceId = none ∧ entry.2.parentPathFallback = none ∧
      entry.2.name ≠ "" ∧ entry.2.name ≠ "." ∧ '/' ∉ entry.2.name.toList ∧
      ∀ child ∈ entry.2.childNodeIds, child ∈ familyScene.nodes := by decide
  have hpairs : ∀ first ∈ familyEntries, ∀ second ∈ familyEntries,
      second.2.childNodeIds.count first.1 =
        (if first.2.parentId = some second.1 then 1 else 0) ∧
      (first.2.parentId = second.2.parentId → first.2.name = second.2.name →
        first.1 = second.1) := by decide
  have hchains : ∀ id ∈ familyScene.nodes,
      Relation.ReflTransGen familyScene.ParentStep id ⟨1, none⟩ := by
    have hfirst : familyScene.ParentStep ⟨2, none⟩ ⟨1, none⟩ := ⟨_, rfl, rfl⟩
    have hsecond : familyScene.ParentStep ⟨3, none⟩ ⟨1, none⟩ := ⟨_, rfl, rfl⟩
    have hthird : familyScene.ParentStep ⟨4, none⟩ ⟨2, none⟩ := ⟨_, rfl, rfl⟩
    intro id hid
    have hkey : id ∈ familyEntries.map Sigma.fst := HashMap.mem_collect.mp hid
    simp only [familyEntries, List.map_cons, List.map_nil, List.mem_cons, List.not_mem_nil,
      or_false] at hkey
    rcases hkey with rfl | rfl | rfl | rfl
    · exact .refl
    · exact .single hfirst
    · exact .single hsecond
    · exact .head hthird (.single hfirst)
  constructor
  · constructor
    · rfl
    · exact fun id node hnode => (heach _ (mem_familyEntries hnode)).1
    · exact ⟨_, rfl, rfl⟩
    · exact hchains
    · intro id node parentId parent hnode hparent
      exact (hpairs _ (mem_familyEntries hnode) _ (mem_familyEntries hparent)).1
    · exact fun id node hnode => (heach _ (mem_familyEntries hnode)).2.2.2.2.2.2.2.2
  · intro id node hnode
    obtain ⟨-, htyped, hnonzero, hunqualified, hlinked, hnamed, hdot, hslash, -⟩ :=
      heach _ (mem_familyEntries hnode)
    exact ⟨htyped, hnonzero, hunqualified, hlinked, hnamed, hdot, hslash⟩
  · intro first second one two parentId hone htwo hparent hother hname
    exact (hpairs _ (mem_familyEntries hone) _ (mem_familyEntries htwo)).2
      (hparent.trans hother.symm) hname

def familyOrders : IterationOrders where
  extResources := []
  subResources := []
  subResourceProperties := fun _ => []
  mainResourceProperties := []
  nodeProperties := fun _ => []
  connections := [⟨"ready", familyConnection⟩]

theorem familyOrders_of : familyOrders.Of familyScene where
  extResources := rfl
  subResources := rfl
  subResourceProperties := nofun
  mainResourceProperties := nofun
  nodeProperties key node hnode := by
    have hempty : ∀ entry ∈ familyEntries, entry.2.properties = ∅ := by decide
    rw [hempty _ (mem_familyEntries hnode)]
    rfl
  connections := HashMap.iterates_collect (by decide)

end Backstitch
