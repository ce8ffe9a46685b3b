/-
# Scenes come back

Reading the text of a plain scene gives the scene again, all of it: every attribute, every
property, the resources and the connections.  Only the numbers that order properties and
resources are given out anew, and what is read can be told from what was written by them alone.
-/

import Backstitch.Parser.ReadWritten
import Backstitch.Parser.TreeTrip

namespace Backstitch

open SectionState NodeState

/-! ## What the first pass reads -/

namespace IterationOrders

variable (orders : IterationOrders)

/-- The external resources, numbered in the order of their sections. -/
def numberedExtResources : HashMap String ExternalResourceNode :=
  HashMap.numbered (fun _ resource position => { resource with idx := position })
    (sortByKey (fun entry => entry.2.idx) orders.extResources)

/-- The sub-resources with their properties, numbered likewise. -/
def numberedSubResources : HashMap String SubResourceNode :=
  HashMap.numbered (fun key resource position => { resource with
      properties := numberedProperties (orders.subResourceProperties key)
      idx := position })
    (sortByKey (fun entry => entry.2.idx) orders.subResources)

end IterationOrders

section FirstPass

variable {scene : GodotScene} {orders : IterationOrders} {root : NodeId} {state : SectionState}

theorem exists_foldlM_extResourceSections
    (hkeyed : ∀ entry ∈ orders.extResources, entry.2.id = entry.1)
    (hempty : state.extResources = ∅) (hfirst : state.extResourceIdx = 0) :
    ∃ idx, (GodotScene.extResourceSections orders).foldlM readSection state =
      .done { state with
        extResources := orders.numberedExtResources
        extResourceIdx := idx } := by
  have hstart : state = { state with extResources := ∅, extResourceIdx := ((0 : ℕ) : ℤ) } := by
    rw [← hempty, Nat.cast_zero, ← hfirst]
  refine ⟨((sortByKey (fun entry => entry.2.idx) orders.extResources).length : ℕ), ?_⟩
  rw [hstart]
  apply @HashMap.foldlM_numbered _ _ _ _ _ _ _ _ readSection extResourceSection
    fun map position => { state with extResources := map, extResourceIdx := (position : ℕ) }
  intro map position entry hentry
  rw [readSection_extResourceSection, Nat.cast_succ,
    ← hkeyed entry ((sortByKey_perm _ _).mem_iff.mp hentry)]

theorem exists_foldlM_subResourceSections
    (hkeyed : ∀ entry ∈ orders.subResources, entry.2.id = entry.1)
    (hempty : state.subResources = ∅) (hfirst : state.subResourceIdx = 0) :
    ∃ idx, (GodotScene.subResourceSections orders).foldlM readSection state =
      .done { state with
        subResources := orders.numberedSubResources
        subResourceIdx := idx } := by
  have hstart : state = { state with subResources := ∅, subResourceIdx := ((0 : ℕ) : ℤ) } := by
    rw [← hempty, Nat.cast_zero, ← hfirst]
  refine ⟨((sortByKey (fun entry => entry.2.idx) orders.subResources).length : ℕ), ?_⟩
  rw [hstart]
  apply @HashMap.foldlM_numbered _ _ _ _ _ _ _ _ readSection (subResourceSection orders)
    fun map position => { state with subResources := map, subResourceIdx := (position : ℕ) }
  intro map position entry hentry
  rw [readSection_subResourceSection, Nat.cast_succ,
    ← hkeyed entry ((sortByKey_perm _ _).mem_iff.mp hentry)]

/-- What the section of a node is read as. -/
def readVisit (orders : IterationOrders) (parentPath : Visit → Option String) (visit : Visit) :
    GodotNode × Option String :=
  (visit.node.unlinked (parentPath visit) (orders.nodeProperties visit.key), parentPath visit)

theorem exists_foldlM_visits {parentPath : Visit → Option String} {visits : List Visit}
    (hvisits : ∀ visit ∈ visits, scene.VisitsNode root visit (parentPath visit))
    (hplain : ∀ visit ∈ visits, GodotScene.PlainNode visit.node)
    (hspelled : ∀ visit ∈ visits, visit.node.Spelled)
    (hnodup : (visits.map fun visit => visit.node.id).Nodup)
    (hnew : ∀ visit ∈ visits, visit.node.id ∉ state.parsedNodeIds) :
    ∃ ids, (visits.map (Visit.toSection orders)).foldlM readSection state = .done { state with
      parsedNodeIds := ids
      nodeArr := state.nodeArr ++ visits.map (readVisit orders parentPath) } := by
  induction visits generalizing state with
  | nil => exact ⟨state.parsedNodeIds, by simp⟩
  | cons visit visits ih =>
      obtain ⟨hfirst, hnodup⟩ := List.nodup_cons.mp hnodup
      have hread := @readSection_toSection state scene root orders visit (parentPath visit)
        (hvisits visit List.mem_cons_self) (hplain visit List.mem_cons_self)
        (hspelled visit List.mem_cons_self) (hnew visit List.mem_cons_self)
      obtain ⟨ids, hids⟩ := @ih { state with
          parsedNodeIds := insert visit.node.id state.parsedNodeIds
          nodeArr := state.nodeArr ++ [readVisit orders parentPath visit] }
        (fun other hother => hvisits other (List.mem_cons_of_mem _ hother))
        (fun other hother => hplain other (List.mem_cons_of_mem _ hother))
        (fun other hother => hspelled other (List.mem_cons_of_mem _ hother)) hnodup
        fun other hother hmem => by
          rcases Finset.mem_insert.mp hmem with hsame | hmem
          · exact hfirst (List.mem_map.mpr ⟨other, hother, hsame⟩)
          · exact hnew other (List.mem_cons_of_mem _ hother) hmem
      refine ⟨ids, ?_⟩
      rw [List.map_cons, List.foldlM_cons, hread, Run.done_bind]
      refine hids.trans ?_
      rw [List.map_cons, List.append_assoc, List.singleton_append]

/-- What the section of a connection is read as. -/
structure ReadsConnection (scene : GodotScene) (root : NodeId) (connection : GodotConnection)
    (item : String × String × GodotConnection) : Prop where
  fromPath : scene.PathTo root connection.fromNodeId item.1
  toPath : scene.PathTo root connection.toNodeId item.2.1
  unlinked : item.2.2 =
    { connection with fromNodeId := .unassigned, toNodeId := .unassigned }

theorem exists_foldlM_connections {connections : List GodotConnection}
    {attributes : List (List Attribute)}
    (hwrites : List.Forall₂ (fun connection => scene.WritesEnds root connection) connections
      attributes)
    (hspelled : ∀ connection ∈ connections, connection.Spelled) :
    ∃ items, List.Forall₂ (ReadsConnection scene root) connections items ∧
      (attributes.map connectionSection).foldlM readSection state = .done { state with
        connectionsArr := state.connectionsArr ++ items } := by
  induction hwrites generalizing state with
  | nil => exact ⟨[], .nil, by simp⟩
  | @cons connection attributes connections rest hfirst _ ih =>
      obtain ⟨fromPath, toPath, rfl, hfrom, hto⟩ := hfirst
      have hread := @readSection_connectionSection state connection fromPath toPath
        (hspelled connection List.mem_cons_self)
      obtain ⟨items, hitems, hdone⟩ := @ih { state with
          connectionsArr := state.connectionsArr ++ [(fromPath, toPath, { connection with
            fromNodeId := .unassigned, toNodeId := .unassigned })] }
        fun other hother => hspelled other (List.mem_cons_of_mem _ hother)
      refine ⟨(fromPath, toPath, { connection with
        fromNodeId := .unassigned, toNodeId := .unassigned }) :: items,
        .cons ⟨hfrom, hto, rfl⟩ hitems, ?_⟩
      rw [List.map_cons, List.foldlM_cons, hread, Run.done_bind]
      refine hdone.trans ?_
      rw [List.append_assoc, List.singleton_append]

theorem foldlM_editables (paths : List String) :
    (paths.map editableSection).foldlM readSection state = .done { state with
      editableInstances := state.editableInstances ++ paths } := by
  induction paths generalizing state with
  | nil => simp
  | cons path paths ih =>
      rw [List.map_cons, List.foldlM_cons, readSection_editableSection, Run.done_bind, ih,
        List.append_assoc, List.singleton_append]

end FirstPass

namespace GodotScene

variable {scene : GodotScene} {root : NodeId} {orders : IterationOrders} {visits : List Visit}
  {connections : List (List Attribute)} {parentPath : Visit → Option String}
  {written : List (Entry String GodotConnection)}

/-- A scene of which all values are read as they were written, and of which the resources and
the connections stand under their ids. -/
structure IsSpelled (scene : GodotScene) : Prop where
  header : SpelledHeader scene
  nodes : ∀ id node, scene.nodes.lookup id = some node → node.Spelled
  extResources : ∀ key resource, scene.extResources.lookup key = some resource →
    resource.id = key
  subResources : ∀ key resource, scene.subResources.lookup key = some resource →
    resource.id = key
  connections : ∀ key connection, scene.connections.lookup key = some connection →
    connection.Spelled ∧ connection.id = key
  ends : ∀ key connection, scene.connections.lookup key = some connection →
    connection.fromNodeId ∈ scene.nodes ∧ connection.toNodeId ∈ scene.nodes

/-- What the first pass makes of all the sections. -/
structure ReadsScene (scene : GodotScene) (root : NodeId) (orders : IterationOrders)
    (parentPath : Visit → Option String) (visits : List Visit)
    (written : List (Entry String GodotConnection)) (read : SectionState) : Prop where
  sceneMetadata : read.sceneMetadata = some
    ⟨scene.loadSteps, scene.format, scene.uid, scene.scriptClass, scene.resourceType⟩
  nodeArr : read.nodeArr = visits.map (readVisit orders parentPath)
  extResources : read.extResources = orders.numberedExtResources
  subResources : read.subResources = orders.numberedSubResources
  connectionsArr : List.Forall₂ (ReadsConnection scene root) (written.map Sigma.snd)
    read.connectionsArr
  mainResource : read.mainResource = none
  editableInstances : read.editableInstances = scene.editableInstances

/-- Before the nodes, the header and the resources have been read. -/
def resourcesRead (scene : GodotScene) (orders : IterationOrders) (extResourceIdx : ℤ)
    (subResourceIdx : ℤ) : SectionState where
  sceneMetadata := some
    ⟨scene.loadSteps, scene.format, scene.uid, scene.scriptClass, scene.resourceType⟩
  extResources := orders.numberedExtResources
  extResourceIdx := extResourceIdx
  subResources := orders.numberedSubResources
  subResourceIdx := subResourceIdx

theorem foldlM_resources (horders : orders.Of scene) (hspelled : scene.IsSpelled) :
    ∃ extIdx subIdx, (scene.headerSection :: extResourceSections orders ++
      subResourceSections orders).foldlM readSection {} =
        .done (scene.resourcesRead orders extIdx subIdx) := by
  have hext : ∀ entry ∈ orders.extResources, entry.2.id = entry.1 := fun entry hentry =>
    hspelled.extResources _ _ (horders.extResources.mem_iff.mp hentry)
  have hsub : ∀ entry ∈ orders.subResources, entry.2.id = entry.1 := fun entry hentry =>
    hspelled.subResources _ _ (horders.subResources.mem_iff.mp hentry)
  obtain ⟨extIdx, hextDone⟩ := @exists_foldlM_extResourceSections orders
    { sceneMetadata := some
        ⟨scene.loadSteps, scene.format, scene.uid, scene.scriptClass, scene.resourceType⟩ }
    hext rfl rfl
  obtain ⟨subIdx, hsubDone⟩ := @exists_foldlM_subResourceSections orders
    { sceneMetadata := some
        ⟨scene.loadSteps, scene.format, scene.uid, scene.scriptClass, scene.resourceType⟩
      extResources := orders.numberedExtResources
      extResourceIdx := extIdx } hsub rfl rfl
  refine ⟨extIdx, subIdx, ?_⟩
  rw [List.cons_append, List.foldlM_cons, readSection_headerSection hspelled.header,
    Run.done_bind, List.foldlM_append, hextDone, Run.done_bind, hsubDone]
  rfl

/-- **Every section is read as what it was written from.** -/
theorem IsPlainTree.readsScene (htree : scene.IsPlainTree root) (hspelled : scene.IsSpelled)
    (horders : orders.Of scene)
    (hvisits : ∀ visit ∈ visits, scene.VisitsNode root visit (parentPath visit))
    (hlists : scene.ListsTree (visits.map Visit.key))
    (hwrites : List.Forall₂ (fun connection => scene.WritesEnds root connection)
      (written.map Sigma.snd) connections)
    (hwritten : ∀ entry ∈ written, scene.connections.lookup entry.1 = some entry.2) :
    ∃ read, (scene.sectionsWith orders visits connections).foldlM readSection {} = .done read ∧
      scene.ReadsScene root orders parentPath visits written read := by
  have hkey : ∀ visit ∈ visits, visit.node.id = visit.key := fun visit hvisit =>
    htree.keyed _ _ (hvisits visit hvisit).lookup
  have hnodup : (visits.map fun visit => visit.node.id).Nodup := by
    rw [List.map_congr_left hkey]
    exact hlists.nodup
  have hconnections : ∀ connection ∈ written.map Sigma.snd, connection.Spelled := by
    intro connection hmem
    obtain ⟨entry, hentry, rfl⟩ := List.mem_map.mp hmem
    exact (hspelled.connections _ _ (hwritten entry hentry)).1
  obtain ⟨extIdx, subIdx, hresources⟩ := foldlM_resources horders hspelled
  obtain ⟨ids, hnodesDone⟩ := @exists_foldlM_visits scene orders root
    (scene.resourcesRead orders extIdx subIdx) parentPath visits hvisits
    (fun visit hvisit => htree.plain _ _ (hvisits visit hvisit).lookup)
    (fun visit hvisit => hspelled.nodes _ _ (hvisits visit hvisit).lookup) hnodup
    fun visit _ => Finset.notMem_empty _
  obtain ⟨items, hitems, hconnectionsDone⟩ :=
    @exists_foldlM_connections scene root _ (written.map Sigma.snd) connections hwrites hconnections
  unfold sectionsWith
  rw [List.foldlM_append, List.foldlM_append, hresources, Run.done_bind, hnodesDone, Run.done_bind,
    List.foldlM_append, hconnectionsDone, Run.done_bind, foldlM_editables]
  exact ⟨_, rfl, rfl, rfl, rfl, rfl, hitems, rfl, rfl⟩

/-! ## The scene that is read -/

/-- A scene with the same values, in which properties and resources have other numbers. -/
structure Renumbers (scene : GodotScene) (orders : IterationOrders) (parsed : GodotScene) :
    Prop where
  fields : parsed.toSceneFields = { scene.toSceneFields with
    extResources := orders.numberedExtResources
    subResources := orders.numberedSubResources
    mainResource := scene.mainResource.map fun resource =>
      { resource with properties := numberedProperties orders.mainResourceProperties } }
  nodes : ∀ id, parsed.nodes.lookup id = (scene.nodes.lookup id).map fun node =>
    { node with properties := numberedProperties (orders.nodeProperties id) }

section Linking

variable {placed : NodeState}

/-- A node that was read finds its parent, and has nothing else to find. -/
theorem IsPlainTree.findParent_unlinked (htree : scene.IsPlainTree root) {keys : List NodeId}
    (hlists : scene.ListsTree keys) {inputs : List (GodotNode × Option String)}
    (hinputs : List.Forall₂ (scene.InputOf root) keys inputs) (hcollects : Collects inputs placed)
    {visit : Visit} {path : Option String} (hvisit : scene.VisitsNode root visit path) :
    findParent placed.nodeIdByNodePath
        (visit.node.unlinked path (orders.nodeProperties visit.key)) =
      .done { visit.node with
        properties := numberedProperties (orders.nodeProperties visit.key)
        childNodeIds := [] } := by
  have hplain := htree.plain _ _ hvisit.lookup
  cases hvisit.namesParent with
  | none hparent =>
      simp only [findParent, GodotNode.unlinked, hparent, hplain.linked]
  | some hparent hpath =>
      have hindexed := (htree.lookup_paths_iff hlists hinputs hcollects).mpr
        ⟨htree.parent_mem hvisit.lookup hparent, hpath⟩
      simp only [findParent, GodotNode.unlinked, hindexed, hparent, hplain.linked]

/-- **The nodes come back.** -/
theorem IsPlainTree.lookup_parsed (htree : scene.IsPlainTree root)
    (hlists : scene.ListsTree (visits.map Visit.key))
    (hvisits : ∀ visit ∈ visits, scene.VisitsNode root visit (parentPath visit))
    (hinputs : List.Forall₂ (scene.InputOf root) (visits.map Visit.key)
      (visits.map (readVisit orders parentPath)))
    (hcollects : Collects (visits.map (readVisit orders parentPath)) placed)
    {parsed : GodotScene} (hlinked : LinkedFrom placed parsed) (id : NodeId) :
    parsed.nodes.lookup id = (scene.nodes.lookup id).map fun node =>
      { node with properties := numberedProperties (orders.nodeProperties id) } := by
  have hsame := htree.sameTree hlists hinputs hcollects hlinked
  cases hnode : scene.nodes.lookup id with
  | none =>
      have hparents := hsame.parents id
      rw [hnode, Option.map_none, Option.map_eq_none_iff] at hparents
      rw [hparents, Option.map_none]
  | some node =>
      obtain ⟨visit, hvisit, rfl⟩ := List.mem_map.mp
        ((hlists.mem_iff id).mpr (Finmap.mem_of_lookup_eq_some hnode))
      have hvisited := hvisits visit hvisit
      obtain rfl := Option.some.inj (hnode.symm.trans hvisited.lookup)
      have hplaced : placed.nodes.lookup visit.key =
          some (visit.node.unlinked (parentPath visit) (orders.nodeProperties visit.key)) := by
        have hids := map_id_of_inputs hinputs
        have hnodup : (((visits.map (readVisit orders parentPath)).map fun input =>
            (⟨input.1.id, input.1⟩ : Entry NodeId GodotNode)).map Sigma.fst).Nodup := by
          rw [List.map_map]
          exact hids ▸ hlists.nodup
        have hkey : visit.node.id = visit.key := htree.keyed _ _ hvisited.lookup
        rw [hcollects.nodes, HashMap.lookup_collect hnodup]
        refine List.mem_map.mpr ⟨_, List.mem_map_of_mem hvisit, ?_⟩
        exact congrArg (fun id => (⟨id, _⟩ : Entry NodeId GodotNode)) hkey
      have hchildren := hsame.children visit.key
      have hlookup := hlinked.lookup visit.key
      rw [hplaced, Option.map_some,
        linkedNode_eq (htree.findParent_unlinked hlists hinputs hcollects hvisited)] at hlookup
      rw [hlookup, hnode, Option.map_some, Option.map_some] at hchildren
      rw [hlookup, Option.map_some]
      have hlisted := Option.some.inj hchildren
      rw [GodotNode.withChildren_childNodeIds] at hlisted
      rw [hlisted]
      rfl

/-- The connections of the first pass are added under their ids. -/
theorem foldlM_readConnections {env : ParseEnv} {paths : HashMap String NodeId}
    {stored : List GodotConnection} {items : List (String × String × GodotConnection)}
    (hreads : List.Forall₂ (ReadsConnection scene root) stored items)
    (hpaths : ∀ connection ∈ stored, ∀ path,
      (scene.PathTo root connection.fromNodeId path →
        paths.lookup path = some connection.fromNodeId) ∧
      (scene.PathTo root connection.toNodeId path →
        paths.lookup path = some connection.toNodeId))
    (connections : HashMap String GodotConnection) :
    items.foldlM (addConnection env paths) connections = .done (stored.foldl
      (fun connections connection => connections.insert connection.id connection)
      connections) := by
  induction hreads generalizing connections with
  | nil => rfl
  | @cons connection item stored items hfirst _ ih =>
      obtain ⟨fromPath, toPath, unlinked⟩ := item
      obtain ⟨hfrom, hto, hunlinked⟩ := hfirst
      have hfromNode := (hpaths connection List.mem_cons_self fromPath).1 hfrom
      have htoNode := (hpaths connection List.mem_cons_self toPath).2 hto
      have hself : addConnection env paths connections (fromPath, toPath, unlinked) =
          .done (connections.insert connection.id connection) := by
        obtain rfl : unlinked = _ := hunlinked
        simp only [addConnection, hfromNode, htoNode]
      rw [List.foldlM_cons, hself, Run.done_bind, List.foldl_cons]
      exact ih (fun other hother => hpaths other (List.mem_cons_of_mem _ hother)) _

end Linking

/-- Every run over the sections of a plain scene returns the scene. -/
theorem IsPlainTree.exists_renumbered (htree : scene.IsPlainTree root)
    (hmain : scene.mainResource = none) (hspelled : scene.IsSpelled) (horders : orders.Of scene)
    {fuel : ℕ} {sections : List Section}
    (hsections : scene.writtenSections orders fuel = .done sections) (env : ParseEnv)
    (parseFuel : ℕ) : ∃ parsed, parseScene env parseFuel sections = .done parsed ∧
      scene.Renumbers orders parsed := by
  have hends := hspelled.ends
  obtain ⟨visits, hvisits, hrest⟩ := Run.bind_eq_done_iff.mp hsections
  obtain ⟨connections, hconnections, hresult⟩ := Run.bind_eq_done_iff.mp hrest
  cases hresult
  have hlists := htree.listsTree hvisits
  obtain ⟨rootNode, hrootNode, hrootVisits⟩ := htree.rootVisits_eq fuel
  obtain ⟨-, hnodes⟩ := htree.visits_spec hrootNode (hrootVisits ▸ hvisits)
  choose! parentPath hvisited using hnodes
  have hwritten : ∀ entry ∈ sortedConnections orders visits,
      scene.connections.lookup entry.1 = some entry.2 := fun entry hentry =>
    (mem_sortedConnections horders).mp hentry
  have hwrites : List.Forall₂ (fun connection => scene.WritesEnds root connection)
      ((sortedConnections orders visits).map Sigma.snd) connections := by
    rw [List.forall₂_map_left_iff]
    apply Run.forall₂_of_mapM_done hconnections
    intro entry hentry attributes hattributes
    obtain ⟨hfrom, hto⟩ := hends _ _ (hwritten entry hentry)
    exact htree.writesEnds hfrom hto hattributes
  obtain ⟨read, hread, hreads⟩ :=
    htree.readsScene hspelled horders hvisited hlists hwrites hwritten
  have hinputs := htree.inputs_of_foldlM hlists
    (fun visit hvisit => ⟨_, hvisited visit hvisit⟩) hread
  obtain ⟨placed, hplaced, hcollects⟩ := @exists_collects env parseFuel read.nodeArr
    read.parsedNodeIds (fun input hinput => (inputOf_of_mem hinputs hinput).typed)
    (map_id_of_inputs hinputs ▸ hlists.nodup)
  obtain ⟨nodes, hlinked⟩ := htree.exists_linked hlists hinputs hcollects
  have hadded := @foldlM_readConnections scene root env placed.nodeIdByNodePath _ _
    hreads.connectionsArr (fun connection hmem path => by
      obtain ⟨entry, hentry, rfl⟩ := List.mem_map.mp hmem
      obtain ⟨hfrom, hto⟩ := hends _ _ (hwritten entry hentry)
      exact ⟨fun hpath => (htree.lookup_paths_iff hlists hinputs hcollects).mpr ⟨hfrom, hpath⟩,
        fun hpath => (htree.lookup_paths_iff hlists hinputs hcollects).mpr ⟨hto, hpath⟩⟩) ∅
  have hkeyed : ((sortedConnections orders visits).map Sigma.snd).foldl (fun connections
      connection => connections.insert connection.id connection) ∅ = scene.connections := by
    have hsorted : scene.connections.Iterates (sortedConnections orders visits) :=
      horders.connections.of_perm (sortByKey_perm _ _)
    rw [List.foldl_map]
    refine Eq.trans (List.foldl_ext _ _ _ fun connections entry hentry => ?_) hsorted.collect_eq
    rw [(hspelled.connections _ _ (hwritten entry hentry)).2]
  obtain ⟨parsed, hparsed⟩ : ∃ parsed : GodotScene, parsed = {
      scene with
      rootNodeId := placed.rootNodeId
      extResources := orders.numberedExtResources
      subResources := orders.numberedSubResources
      nodes := nodes } := ⟨_, rfl⟩
  have hparse : parseScene env parseFuel (scene.sectionsWith orders visits connections) =
      .done parsed := by
    rw [parseScene, hread, Run.done_bind, hplaced, Run.done_bind, hlinked, Run.done_bind, hadded,
      Run.done_bind, hreads.sceneMetadata, hkeyed, hparsed, hreads.extResources,
      hreads.subResources, hreads.mainResource, hreads.editableInstances, ← hmain]
    rfl
  have hfrom := PlacesNodes.linkedFrom ⟨hread, parseFuel, hplaced⟩ ⟨parseFuel, hparse⟩
  refine ⟨parsed, hparse, ?_, ?_⟩
  · rw [hparsed, htree.placed_rootNodeId hlists hinputs hcollects, ← htree.rootNodeId, hmain,
      Option.map_none, ← hmain]
  · rw [hreads.nodeArr] at hinputs hcollects
    exact htree.lookup_parsed hlists hvisited hinputs hcollects hfrom

/-! ## Resource files -/

/-- The section of a main resource. -/
def mainResourceSection (orders : IterationOrders) : Section where
  identifier := "resource"
  attributes := []
  properties := writtenProperties orders.mainResourceProperties

/-- The sections that one call of `serialize` writes. -/
def textSections (scene : GodotScene) (orders : IterationOrders) (fuel : ℕ) :
    Run (List Section) :=
  match scene.mainResource with
  | some _ => .done (scene.headerSection :: extResourceSections orders ++
      subResourceSections orders ++ [mainResourceSection orders])
  | none => scene.writtenSections orders fuel

/-- What a file holds: a plain scene, or a resource without any nodes. -/
inductive IsFile (scene : GodotScene) : Prop
  | scene {root : NodeId} (htree : scene.IsPlainTree root) (hmain : scene.mainResource = none)
  | resource {properties : Properties}
      (hmain : scene.mainResource = some ⟨"", scene.resourceType, properties, 0⟩)
      (hroot : scene.rootNodeId = none) (hnodes : scene.nodes = ∅)
      (hconnections : scene.connections = ∅) (heditables : scene.editableInstances = [])

/-- The text is that of the sections. -/
theorem exists_textSections (horders : orders.Of scene) {fuel : ℕ} {text : String}
    (hdone : scene.serialize orders fuel = .done text) :
    ∃ sections, scene.textSections orders fuel = .done sections ∧ SpellsOut sections text := by
  rcases Option.eq_none_or_eq_some scene.mainResource with hmain | ⟨resource, hmain⟩
  · simp only [textSections, hmain]
    exact exists_writtenSections hmain horders hdone
  · simp only [textSections, hmain]
    rw [scene.serialize_of_mainResource hmain] at hdone
    have hspells := (spellsOut_resources horders).append
      (SpellsOut.cons (mainResourceSection orders) false .nil)
    have htext : (mainResourceSection orders).text =
        "[resource]\n" ++ propertiesText orders.mainResourceProperties := by
      rw [Section.text, mainResourceSection, join_writtenProperties]
      rfl
    rw [htext] at hspells
    refine ⟨_, rfl, ?_⟩
    rw [← Run.done.inj hdone, String.append_assoc]
    simpa using hspells

/-- Every run over the sections of a resource returns the resource. -/
theorem exists_renumbered_of_resource {properties : Properties}
    (hmain : scene.mainResource = some ⟨"", scene.resourceType, properties, 0⟩)
    (hroot : scene.rootNodeId = none) (hnodes : scene.nodes = ∅)
    (hconnections : scene.connections = ∅) (heditables : scene.editableInstances = [])
    (hspelled : scene.IsSpelled) (horders : orders.Of scene) (env : ParseEnv) (fuel : ℕ) :
    ∃ parsed, parseScene env fuel (scene.headerSection :: extResourceSections orders ++
        subResourceSections orders ++ [mainResourceSection orders]) = .done parsed ∧
      scene.Renumbers orders parsed := by
  obtain ⟨extIdx, subIdx, hresources⟩ := foldlM_resources horders hspelled
  have hproperties : (mainResourceSection orders).orderedProperties =
      numberedProperties orders.mainResourceProperties := orderedProperties_eq rfl
  have hread : (scene.headerSection :: extResourceSections orders ++
      subResourceSections orders ++ [mainResourceSection orders]).foldlM readSection {} =
        .done { scene.resourcesRead orders extIdx subIdx with
          mainResource := some ⟨"", scene.resourceType,
            numberedProperties orders.mainResourceProperties, 0⟩ } := by
    rw [List.foldlM_append, hresources, Run.done_bind, List.foldlM_cons, ← hproperties]
    rfl
  refine ⟨_, by rw [parseScene, hread]; rfl, ?_, fun id => ?_⟩
  · dsimp only
    rw [hmain, hroot, hconnections, heditables]
    rfl
  · rw [hnodes]
    rfl

/-- Every run over the sections of a file returns what was written. -/
theorem IsFile.exists_renumbered (hfile : scene.IsFile) (hspelled : scene.IsSpelled)
    (horders : orders.Of scene) {fuel : ℕ} {sections : List Section}
    (hsections : scene.textSections orders fuel = .done sections) (env : ParseEnv)
    (parseFuel : ℕ) : ∃ parsed, parseScene env parseFuel sections = .done parsed ∧
      scene.Renumbers orders parsed := by
  cases hfile with
  | scene htree hmain =>
      simp only [textSections, hmain] at hsections
      exact htree.exists_renumbered hmain hspelled horders hsections env parseFuel
  | resource hmain hroot hnodes hconnections heditables =>
      simp only [textSections, hmain] at hsections
      cases hsections
      exact exists_renumbered_of_resource hmain hroot hnodes hconnections heditables hspelled
        horders env parseFuel

end GodotScene

/-! ## A scene with resources -/

def doorScript : ExternalResourceNode where
  resourceType := "Script"
  uid := none
  path := "res://door.gd"
  id := "1_door"
  idx := 5

def doorShape : SubResourceNode where
  id := "Shape_1"
  resourceType := "BoxShape3D"
  properties := HashMap.collect [⟨"size", ⟨"Vector3(1, 2, 1)", 7⟩⟩]
  idx := 3

/-- The tree of the other example, with resources that have numbers of their own. -/
def doorScene : GodotScene where
  loadSteps := 3
  format := 3
  uid := "uid://door"
  scriptClass := none
  resourceType := "PackedScene"
  rootNodeId := some ⟨1, none⟩
  extResources := HashMap.collect [⟨"1_door", doorScript⟩]
  subResources := HashMap.collect [⟨"Shape_1", doorShape⟩]
  connections := HashMap.collect [⟨familyConnection.id, familyConnection⟩]
  editableInstances := []
  mainResource := none
  nodes := HashMap.collect familyEntries

def doorOrders : IterationOrders where
  extResources := [⟨"1_door", doorScript⟩]
  subResources := [⟨"Shape_1", doorShape⟩]
  subResourceProperties := fun _ => [⟨"size", ⟨"Vector3(1, 2, 1)", 7⟩⟩]
  mainResourceProperties := []
  nodeProperties := fun _ => []
  connections := [⟨familyConnection.id, familyConnection⟩]

theorem doorOrders_of : doorOrders.Of doorScene := by
  constructor
  · exact HashMap.iterates_collect (by decide)
  · exact HashMap.iterates_collect (by decide)
  · intro key resource hresource
    cases List.mem_singleton.mp (HashMap.mem_of_lookup_collect hresource)
    exact HashMap.iterates_collect (by decide)
  · intro resource hresource
    cases hresource
  · intro key node hnode
    have hempty : ∀ entry ∈ familyEntries, entry.2.properties = ∅ := by decide
    rw [hempty _ (mem_familyEntries hnode)]
    rfl
  · exact HashMap.iterates_collect (by decide)

theorem isFile_doorScene : doorScene.IsFile := by
  have htree := isPlainTree_familyScene
  exact .scene ⟨⟨htree.rootNodeId, htree.keyed, htree.rootNode, htree.leadsToRoot,
    htree.consistent, htree.listed⟩, htree.plain, htree.siblings⟩ rfl

theorem isSpelled_doorScene : doorScene.IsSpelled := by
  have hnodes : ∀ entry ∈ familyEntries, entry.2.typeOrInstance = some (.ofType "Node") ∧
      entry.2.instancePlaceholder = none ∧ entry.2.nodePaths = none ∧
      entry.2.parentIdPath = none ∧ entry.2.ownerUidPath = none ∧ entry.2.index = none := by
    decide
  constructor
  · exact ⟨⟨by decide, by decide⟩, ⟨by decide, by decide⟩, fun _ => rfl⟩
  · intro id node hnode
    have hself := hnodes _ (mem_familyEntries hnode)
    dsimp only at hself
    obtain ⟨htype, hplaceholder, hpaths, hparent, howner, hindex⟩ := hself
    constructor <;> simp [htype, hplaceholder, hpaths, hparent, howner, hindex]
  · intro key resource hresource
    cases List.mem_singleton.mp (HashMap.mem_of_lookup_collect hresource)
    rfl
  · intro key resource hresource
    cases List.mem_singleton.mp (HashMap.mem_of_lookup_collect hresource)
    rfl
  · intro key connection hconnection
    cases List.mem_singleton.mp (HashMap.mem_of_lookup_collect hconnection)
    refine ⟨?_, rfl⟩
    constructor <;> simp [familyConnection]
  · intro key connection hconnection
    cases List.mem_singleton.mp (HashMap.mem_of_lookup_collect hconnection)
    exact ⟨by decide, by decide⟩

end Backstitch
