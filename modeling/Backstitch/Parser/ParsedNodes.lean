/-
# The nodes of a parsed scene

The last pass over the nodes finds a parent for each of them, on its own, and appends it to the
children of that parent.  So every node of a parsed scene is the one that was placed, with the
parent found for it, and with the nodes that found it as children, in the order of the text.
-/

import Backstitch.Parser.ParseTree

namespace Backstitch

section Linking

variable {paths : HashMap String NodeId} {nodes next final : HashMap NodeId GodotNode}
  {keys : List NodeId} {uid : NodeId} {node linked : GodotNode}

/-- A node with other children. -/
def GodotNode.withChildren (node : GodotNode) (children : List NodeId) : GodotNode :=
  { node with childNodeIds := children }

@[simp]
theorem GodotNode.withChildren_parentId (node : GodotNode) (children : List NodeId) :
    (node.withChildren children).parentId = node.parentId := rfl

@[simp]
theorem GodotNode.withChildren_childNodeIds (node : GodotNode) (children : List NodeId) :
    (node.withChildren children).childNodeIds = children := rfl

@[simp]
theorem GodotNode.withChildren_withChildren (node : GodotNode) (first second : List NodeId) :
    (node.withChildren first).withChildren second = node.withChildren second := rfl

@[simp]
theorem GodotNode.withChildren_self (node : GodotNode) :
    node.withChildren node.childNodeIds = node := rfl

/-- A node with the parent that is found for it. -/
def linkedNode (paths : HashMap String NodeId) (node : GodotNode) : GodotNode :=
  match findParent paths node with
  | .done linked => linked
  | _ => node

/-- The parent that a node finds. -/
def parentOf (paths : HashMap String NodeId) (nodes : HashMap NodeId GodotNode) (uid : NodeId) :
    Option NodeId :=
  (nodes.lookup uid).bind fun node => (linkedNode paths node).parentId

theorem linkedNode_eq (hdone : findParent paths node = .done linked) :
    linkedNode paths node = linked := by
  rw [linkedNode, hdone]

/-- Finding a parent does not look at the children. -/
theorem findParent_withChildren (node : GodotNode) (children : List NodeId) :
    findParent paths (node.withChildren children) =
      (findParent paths node >>= fun linked => pure (linked.withChildren children)) := by
  unfold findParent GodotNode.withChildren
  dsimp only
  cases hparent : node.parentId with
  | some parentId => cases hfallback : node.parentPathFallback <;> simp [hparent, hfallback]
  | none =>
      cases hfallback : node.parentPathFallback with
      | none => simp [hparent, hfallback]
      | some parentPath =>
          dsimp only
          cases paths.lookup parentPath with
          | some parentId => simp
          | none =>
              dsimp only
              cases (ancestorPaths parentPath).findSome? fun path => paths.lookup path <;> simp

@[simp]
theorem linkedNode_withChildren (node : GodotNode) (children : List NodeId) :
    linkedNode paths (node.withChildren children) =
      (linkedNode paths node).withChildren children := by
  unfold linkedNode
  rw [findParent_withChildren]
  cases findParent paths node <;> rfl

theorem linkedNode_childNodeIds (node : GodotNode) :
    (linkedNode paths node).childNodeIds = node.childNodeIds := by
  rw [linkedNode]
  split
  · rename_i linked hdone
    exact findParent_childNodeIds hdone
  · rfl

/-- A node finds a parent that is there. -/
theorem linkNode_parent_mem (hdone : linkNode paths nodes uid = .done next)
    (hnode : nodes.lookup uid = some node) {parentId : NodeId}
    (hparent : (linkedNode paths node).parentId = some parentId) : parentId ∈ nodes := by
  unfold linkNode at hdone
  simp only [hnode] at hdone
  obtain ⟨linked, hlinked, hrest⟩ := Run.bind_eq_done_iff.mp hdone
  rw [linkedNode_eq hlinked] at hparent
  simp only [hparent] at hrest
  split at hrest
  · rename_i parent hlookup
    have hmem := Finmap.mem_of_lookup_eq_some hlookup
    rcases Finmap.mem_insert.mp hmem with rfl | hmem
    · exact Finmap.mem_of_lookup_eq_some hnode
    · exact hmem
  · nomatch hrest

/-- What one round does, node by node. -/
theorem linkNode_eq (hdone : linkNode paths nodes uid = .done next) (id : NodeId) :
    next.lookup id = (nodes.lookup id).map fun found =>
      (if id = uid then linkedNode paths found else found).withChildren
        (found.childNodeIds ++ if parentOf paths nodes uid = some id then [uid] else []) := by
  obtain ⟨node, linked, hnode, hlinked, hlookup⟩ := linkNode_lookup hdone
  have hparent : parentOf paths nodes uid = linked.parentId := by
    rw [parentOf, hnode, Option.bind_some, linkedNode_eq hlinked]
  rw [hlookup, hparent]
  cases hfound : nodes.lookup id with
  | none => rfl
  | some found =>
      have hself : (if id = uid then linked else found) =
          if id = uid then linkedNode paths found else found := by
        by_cases heq : id = uid
        · subst heq
          obtain rfl := Option.some.inj (hnode.symm.trans hfound)
          rw [if_pos rfl, if_pos rfl, linkedNode_eq hlinked]
        · rw [if_neg heq, if_neg heq]
      have hchildren : (if id = uid then linkedNode paths found else found).childNodeIds =
          found.childNodeIds := by
        split
        · exact linkedNode_childNodeIds found
        · rfl
      rw [Option.map_some, Option.map_some, Option.map_some, hself, ← hchildren]
      split
      · rfl
      · rw [List.append_nil, GodotNode.withChildren_self]

/-- The other nodes find the same parents after one round. -/
theorem parentOf_of_linkNode (hdone : linkNode paths nodes uid = .done next) {id : NodeId}
    (hid : id ≠ uid) : parentOf paths next id = parentOf paths nodes id := by
  rw [parentOf, parentOf, linkNode_eq hdone]
  cases nodes.lookup id with
  | none => rfl
  | some found =>
      rw [Option.map_some, Option.bind_some, Option.bind_some, if_neg hid, linkedNode_withChildren,
        GodotNode.withChildren_parentId]

/-- **Every node that is linked finds its parent, which is there.** -/
theorem findParent_of_foldlM (hnodup : keys.Nodup)
    (hdone : keys.foldlM (linkNode paths) nodes = .done final) (hmem : uid ∈ keys) :
    ∃ node, nodes.lookup uid = some node ∧
      findParent paths node = .done (linkedNode paths node) ∧
      ∀ parentId, (linkedNode paths node).parentId = some parentId → parentId ∈ nodes := by
  induction keys generalizing nodes with
  | nil => nomatch hmem
  | cons key keys ih =>
      obtain ⟨middle, hfirst, hrest⟩ := Run.foldlM_cons_eq_done_iff.mp hdone
      obtain ⟨hnew, hnodup⟩ := List.nodup_cons.mp hnodup
      by_cases heq : uid = key
      · subst heq
        obtain ⟨node, linked, hnode, hlinked, -⟩ := linkNode_lookup hfirst
        refine ⟨node, hnode, by rw [linkedNode_eq hlinked, hlinked], fun parentId hparent => ?_⟩
        exact linkNode_parent_mem hfirst hnode hparent
      · have hlater := (List.mem_cons.mp hmem).resolve_left heq
        obtain ⟨found, hfound, hlinked, hparents⟩ := ih hnodup hrest hlater
        rw [linkNode_eq hfirst] at hfound
        simp only [if_neg heq] at hfound
        obtain ⟨node, hnode, rfl⟩ := Option.map_eq_some_iff.mp hfound
        rw [findParent_withChildren, linkedNode_withChildren] at hlinked
        obtain ⟨linked, hdone, hsame⟩ := Run.bind_eq_done_iff.mp hlinked
        refine ⟨node, hnode, by rw [linkedNode_eq hdone, hdone], fun parentId hparent => ?_⟩
        rw [← linkNode_mem_iff hfirst]
        apply hparents
        rw [linkedNode_withChildren]
        exact hparent

/-- **What linking makes of each node.** -/
theorem lookup_of_foldlM (hnodup : keys.Nodup)
    (hdone : keys.foldlM (linkNode paths) nodes = .done final) (id : NodeId) :
    final.lookup id = (nodes.lookup id).map fun node =>
      (if id ∈ keys then linkedNode paths node else node).withChildren
        (node.childNodeIds ++ keys.filter fun uid => decide (parentOf paths nodes uid = some id)) := by
  induction keys generalizing nodes with
  | nil =>
      cases hdone
      simp
  | cons key keys ih =>
      obtain ⟨middle, hfirst, hrest⟩ := Run.foldlM_cons_eq_done_iff.mp hdone
      obtain ⟨hnew, hnodup⟩ := List.nodup_cons.mp hnodup
      have hparents : (keys.filter fun uid => decide (parentOf paths middle uid = some id)) =
          keys.filter fun uid => decide (parentOf paths nodes uid = some id) := by
        apply List.filter_congr
        intro uid huid
        have hne : uid ≠ key := by
          rintro rfl
          exact hnew huid
        rw [parentOf_of_linkNode hfirst hne]
      have hchildren : (if parentOf paths nodes key = some id then [key] else []) ++
          (keys.filter fun uid => decide (parentOf paths nodes uid = some id)) =
          (key :: keys).filter fun uid => decide (parentOf paths nodes uid = some id) := by
        rw [List.filter_cons]
        split <;> simp_all
      rw [ih hnodup hrest, hparents, linkNode_eq hfirst, Option.map_map, ← hchildren]
      congr 1
      funext node
      rw [Function.comp_apply, GodotNode.withChildren_childNodeIds, List.append_assoc]
      by_cases heq : id = key
      · subst heq
        rw [if_neg hnew, if_pos rfl, if_pos List.mem_cons_self, GodotNode.withChildren_withChildren]
      · have hmem : id ∈ key :: keys ↔ id ∈ keys := by simp [heq]
        simp only [if_neg heq, hmem]
        split
        · rw [linkedNode_withChildren, GodotNode.withChildren_withChildren]
        · rw [GodotNode.withChildren_withChildren]

end Linking

/-! ## The passes over sections and nodes are functions -/

namespace NodeState

/-- The path that a section spells out for its node. -/
def sectionPath (input : GodotNode × Option String) : String := indexedPath input.2 input.1.name

variable {env : ParseEnv} {state : NodeState} {fuel more : ℕ}

theorem drawNodeId_mono {draws : ℕ} (hends : state.drawNodeId env fuel draws ≠ .running)
    (hle : fuel ≤ more) :
    state.drawNodeId env more draws = state.drawNodeId env fuel draws := by
  induction fuel generalizing draws more with
  | zero => exact absurd rfl hends
  | succ fuel ih =>
      obtain ⟨more, rfl⟩ : ∃ rest, more = rest + 1 :=
        Nat.exists_eq_add_of_le' (Nat.one_le_of_lt hle)
      rw [drawNodeId] at hends
      rw [drawNodeId, drawNodeId]
      split
      · rename_i hused
        rw [if_pos hused] at hends
        exact ih hends (Nat.le_of_succ_le_succ hle)
      · rfl

theorem assignNodeId_mono {nodeId : NodeId}
    (hends : state.assignNodeId env fuel nodeId ≠ .running) (hle : fuel ≤ more) :
    state.assignNodeId env more nodeId = state.assignNodeId env fuel nodeId := by
  unfold assignNodeId at hends ⊢
  split
  · rename_i hunassigned
    rw [if_pos hunassigned] at hends
    rw [drawNodeId_mono (fun hrunning => hends (by rw [hrunning, Run.running_bind])) hle]
  · rfl

/-- More fuel changes a round only if it had not come back. -/
theorem addNode_mono {input : GodotNode × Option String}
    (hends : state.addNode env fuel input ≠ .running) (hle : fuel ≤ more) :
    state.addNode env more input = state.addNode env fuel input := by
  obtain ⟨node, parentPath⟩ := input
  unfold addNode at hends ⊢
  dsimp only at hends ⊢
  rw [assignNodeId_mono (fun hrunning => hends (by rw [hrunning, Run.running_bind])) hle]

/-- The same holds of the whole loop. -/
theorem foldlM_addNode_mono {inputs : List (GodotNode × Option String)}
    (hends : inputs.foldlM (fun state input => state.addNode env fuel input) state ≠ .running)
    (hle : fuel ≤ more) :
    inputs.foldlM (fun state input => state.addNode env more input) state =
      inputs.foldlM (fun state input => state.addNode env fuel input) state :=
  Run.foldlM_mono hends fun _ _ hround => addNode_mono hround hle

end NodeState

/-- What the passes over the sections and over the nodes leave. -/
structure PlacesNodes (env : ParseEnv) (sections : List Section) (read : SectionState)
    (placed : NodeState) : Prop where
  reads : sections.foldlM SectionState.readSection {} = .done read
  places : ∃ fuel, read.nodeArr.foldlM (fun state input => state.addNode env fuel input)
    ({ parsedNodeIds := read.parsedNodeIds } : NodeState) = .done placed

theorem PlacesNodes.unique {env : ParseEnv} {sections : List Section}
    {first second : SectionState} {firstPlaced secondPlaced : NodeState}
    (hfirst : PlacesNodes env sections first firstPlaced)
    (hsecond : PlacesNodes env sections second secondPlaced) :
    first = second ∧ firstPlaced = secondPlaced := by
  obtain ⟨hreads, fuel, hplaces⟩ := hfirst
  obtain ⟨hotherReads, more, hotherPlaces⟩ := hsecond
  obtain rfl := Run.done.inj (hreads.symm.trans hotherReads)
  refine ⟨rfl, ?_⟩
  have hleft := NodeState.foldlM_addNode_mono (by rw [hplaces]; exact nofun)
    (Nat.le_max_left fuel more)
  have hright := NodeState.foldlM_addNode_mono (by rw [hotherPlaces]; exact nofun)
    (Nat.le_max_right fuel more)
  rw [hplaces] at hleft
  rw [hotherPlaces] at hright
  exact Run.done.inj (hleft.symm.trans hright)

/-! ## Parsed scenes -/

/-- What is known of the nodes of a parsed scene: each is one that was placed, linked. -/
structure LinkedFrom (placed : NodeState) (scene : GodotScene) : Prop where
  wellPlaced : placed.Placed
  rootNodeId : scene.rootNodeId = placed.rootNodeId
  lookup : ∀ id, scene.nodes.lookup id = (placed.nodes.lookup id).map fun node =>
    (linkedNode placed.nodeIdByNodePath node).withChildren
      (placed.keys.filter fun uid =>
        decide (parentOf placed.nodeIdByNodePath placed.nodes uid = some id))
  found : ∀ id node, placed.nodes.lookup id = some node →
    findParent placed.nodeIdByNodePath node = .done (linkedNode placed.nodeIdByNodePath node)
  parent_mem : ∀ id parentId,
    parentOf placed.nodeIdByNodePath placed.nodes id = some parentId → parentId ∈ placed.nodes

section Parse

variable {env : ParseEnv} {sections : List Section} {scene : GodotScene} {placed : NodeState}

/-- Linking all nodes that were placed gives the nodes of the scene. -/
theorem NodeState.Placed.linkedFrom (hplaced : placed.Placed)
    (hroot : scene.rootNodeId = placed.rootNodeId)
    (hlink : placed.keys.foldlM (linkNode placed.nodeIdByNodePath) placed.nodes =
      .done scene.nodes) : LinkedFrom placed scene where
  wellPlaced := hplaced
  rootNodeId := hroot
  lookup id := by
    rw [lookup_of_foldlM hplaced.nodup hlink]
    cases hnode : placed.nodes.lookup id with
    | none => rfl
    | some node =>
        have hkey : id ∈ placed.keys :=
          (hplaced.mem_iff id).mpr (Finmap.mem_of_lookup_eq_some hnode)
        rw [Option.map_some, Option.map_some, if_pos hkey, hplaced.childNodeIds id node hnode,
          List.nil_append]
  found id node hnode := by
    have hkey : id ∈ placed.keys := (hplaced.mem_iff id).mpr (Finmap.mem_of_lookup_eq_some hnode)
    obtain ⟨found, hfound, hdone, -⟩ := findParent_of_foldlM hplaced.nodup hlink hkey
    obtain rfl := Option.some.inj (hnode.symm.trans hfound)
    exact hdone
  parent_mem id parentId hparent := by
    obtain ⟨node, hnode, hlinked⟩ := Option.bind_eq_some_iff.mp hparent
    have hkey : id ∈ placed.keys := (hplaced.mem_iff id).mpr (Finmap.mem_of_lookup_eq_some hnode)
    obtain ⟨found, hfound, -, hparents⟩ := findParent_of_foldlM hplaced.nodup hlink hkey
    obtain rfl := Option.some.inj (hnode.symm.trans hfound)
    exact hparents parentId hlinked

theorem LinkedFrom.mem_iff (hlinked : LinkedFrom placed scene) (id : NodeId) :
    id ∈ scene.nodes ↔ id ∈ placed.nodes := by
  rw [← Finmap.lookup_isSome, hlinked.lookup, Option.isSome_map, Finmap.lookup_isSome]

theorem ParsesTo.exists_linkedFrom (hparse : ParsesTo env sections scene) :
    ∃ read placed, PlacesNodes env sections read placed ∧ LinkedFrom placed scene := by
  obtain ⟨fuel, hdone⟩ := hparse
  obtain ⟨read, placed, hread, hplaces, hlink, hroot⟩ := parseScene_eq_done hdone
  have hplaced := NodeState.placed_of_foldlM hplaces fun input hinput =>
    childNodeIds_of_mem_nodeArr hread hinput
  exact ⟨read, placed, ⟨hread, fuel, hplaces⟩, hplaced.linkedFrom hroot hlink⟩

theorem PlacesNodes.linkedFrom {read : SectionState}
    (hplaces : PlacesNodes env sections read placed) (hparse : ParsesTo env sections scene) :
    LinkedFrom placed scene := by
  obtain ⟨otherRead, otherPlaced, hother, hlinked⟩ := hparse.exists_linkedFrom
  obtain ⟨-, rfl⟩ := hplaces.unique hother
  exact hlinked

/-- **The parent of a node of a parsed scene is one of its nodes.** -/
theorem ParsesTo.parent_mem (hparse : ParsesTo env sections scene) {id parentId : NodeId}
    {node : GodotNode} (hnode : scene.nodes.lookup id = some node)
    (hparent : node.parentId = some parentId) : parentId ∈ scene.nodes := by
  obtain ⟨-, placed, -, hlinked⟩ := hparse.exists_linkedFrom
  rw [hlinked.lookup] at hnode
  obtain ⟨found, hfound, rfl⟩ := Option.map_eq_some_iff.mp hnode
  rw [hlinked.mem_iff]
  apply hlinked.parent_mem id
  rw [parentOf, hfound]
  exact hparent

end Parse

end Backstitch
