/-
# Writing a tree

A tree of plain nodes can be written.  Every node gets one section, which names the path of its
parent, and the children of a node come in the order in which it lists them.
-/

import Backstitch.Library.TopDown
import Backstitch.Parser.TreePaths

namespace Backstitch

open Relation

namespace GodotScene

variable (scene : GodotScene)

/-- The path that the section of a node names, if it names one. -/
inductive NamesParent (root : NodeId) (node : GodotNode) : Option String → Prop
  | none (hparent : node.parentId = none) : NamesParent root node none
  | some {parentId : NodeId} {parentPath : String} (hparent : node.parentId = some parentId)
      (hpath : scene.PathTo root parentId parentPath) : NamesParent root node (some parentPath)

/-- The attributes that speak of the parent of a node. -/
def parentPathAttributes (node : GodotNode) : Option String → List Attribute
  | none => []
  | some parentPath => ("parent", quoted parentPath) ::
      optionalAttribute "parent_id_path" (node.parentIdPath.map serializeInt32Array)

/-- A node under its own key, with the attributes that name the path of its parent. -/
structure VisitsNode (root : NodeId) (visit : Visit) (parentPath : Option String) : Prop where
  lookup : scene.nodes.lookup visit.key = some visit.node
  namesParent : scene.NamesParent root visit.node parentPath
  attributes : visit.attributes =
    nodeAttributesWith visit.node (parentPathAttributes visit.node parentPath)

/-- The children that a node lists. -/
def listedChildren (id : NodeId) : List NodeId :=
  ((scene.nodes.lookup id).map GodotNode.childNodeIds).getD []

/-- The parent that a node names. -/
def namedParent (id : NodeId) : Option NodeId :=
  (scene.nodes.lookup id).bind GodotNode.parentId

/-- The keys of the sections of a tree: every node once, and children in their order. -/
structure ListsTree (keys : List NodeId) : Prop where
  nodup : keys.Nodup
  mem_iff : ∀ id, id ∈ keys ↔ id ∈ scene.nodes
  children : ∀ id ∈ scene.nodes,
    keys.filter (fun key => decide (scene.namedParent key = some id)) = scene.listedChildren id

variable {scene} {root : NodeId}

/-! ## A tree can be written -/

theorem IsPlainTree.hasPath (htree : scene.IsPlainTree root) {id : NodeId}
    (hid : id ∈ scene.nodes) : scene.HasPath id := by
  obtain ⟨path, hpath⟩ := htree.exists_pathTo hid
  obtain ⟨fuel, hdone⟩ := htree.exists_getNodePath hpath
  exact exists_getNodePath_iff.mp ⟨fuel, path, hdone⟩

theorem IsTree.parent_mem (htree : scene.IsTree root) {id parentId : NodeId} {node : GodotNode}
    (hnode : scene.nodes.lookup id = some node) (hparent : node.parentId = some parentId) :
    parentId ∈ scene.nodes := by
  have hne : id ≠ root := by
    rintro rfl
    exact htree.not_parentStep_root parentId ⟨node, hnode, hparent⟩
  obtain ⟨found, hmem, hfound⟩ := htree.exists_parent hnode hne
  cases hparent.symm.trans hfound
  exact hmem

/-- No node is listed below itself. -/
theorem IsTree.not_transGen_childStep (htree : scene.IsTree root) {id : NodeId}
    (hid : id ∈ scene.nodes) : ¬ TransGen scene.ChildStep id id := by
  intro hcycle
  apply htree.not_transGen hid
  apply transGen_swap.mp
  apply TransGen.mono _ _ _ hcycle
  intro parent child hstep
  exact ((childStep_iff_parentStep htree.consistent).mp hstep).2

theorem IsPlainTree.writable (htree : scene.IsPlainTree root)
    (hends : ∀ key connection, scene.connections.lookup key = some connection →
      connection.fromNodeId ∈ scene.nodes ∧ connection.toNodeId ∈ scene.nodes) :
    scene.Writable := by
  refine .inr ⟨?_, fun key connection hconnection => ?_⟩
  · intro rootNodeId _ hmem descendant hreach
    have hdescendant := mem_of_reflTransGen_childStep hmem hreach
    refine ⟨fun node parentId hnode hparent => ?_, htree.not_transGen_childStep hdescendant⟩
    exact .inr (.inr (htree.hasPath (htree.parent_mem hnode hparent)))
  · obtain ⟨hfrom, hto⟩ := hends key connection hconnection
    exact ⟨htree.hasPath hfrom, htree.hasPath hto⟩

/-! ## The attributes of a node -/

theorem IsTree.eq_root (htree : scene.IsTree root) {id : NodeId} {node : GodotNode}
    (hnode : scene.nodes.lookup id = some node) (hparent : node.parentId = none) : id = root := by
  by_contra hne
  obtain ⟨parentId, -, hsome⟩ := htree.exists_parent hnode hne
  nomatch hparent.symm.trans hsome

/-- A section with this parent path is one for the path of the node. -/
theorem IsTree.pathTo_indexedPath (htree : scene.IsTree root) {id : NodeId} {node : GodotNode}
    {parentPath : Option String} (hnode : scene.nodes.lookup id = some node)
    (hnames : scene.NamesParent root node parentPath) :
    scene.PathTo root id (NodeState.indexedPath parentPath node.name) := by
  cases hnames with
  | none hparent =>
      rw [htree.eq_root hnode hparent]
      exact .root
  | some hparent hpath => exact .child hnode hparent hpath

/-- The text of the parent is its path. -/
theorem IsPlainTree.pathTo_of_parentName (htree : scene.IsPlainTree root) {id parentId : NodeId}
    {node : GodotNode} (hnode : scene.nodes.lookup id = some node)
    (hparent : node.parentId = some parentId) {fuel : ℕ} {text : String}
    (hdone : scene.parentName fuel node parentId = .done text) :
    scene.PathTo root parentId text := by
  unfold parentName at hdone
  rw [htree.rootNodeId, (htree.plain id node hnode).linked] at hdone
  split at hdone
  · next hroot =>
    obtain rfl := Option.some.inj hroot
    obtain rfl := Run.done.inj hdone
    exact .root
  · exact htree.pathTo_of_getNodePath (htree.parent_mem hnode hparent) hdone

theorem IsPlainTree.exists_namesParent (htree : scene.IsPlainTree root) {id : NodeId}
    {node : GodotNode} (hnode : scene.nodes.lookup id = some node) {fuel : ℕ}
    {attributes : List Attribute} (hdone : scene.nodeAttributes fuel node = .done attributes) :
    ∃ parentPath, scene.NamesParent root node parentPath ∧
      attributes = nodeAttributesWith node (parentPathAttributes node parentPath) := by
  obtain ⟨parentAttributes, hparentAttributes, hresult⟩ := Run.bind_eq_done_iff.mp hdone
  cases hresult
  unfold GodotScene.parentAttributes at hparentAttributes
  cases hparent : node.parentId with
  | none =>
      simp only [hparent, Run.done.injEq] at hparentAttributes
      exact ⟨none, .none hparent, by rw [← hparentAttributes]; rfl⟩
  | some parentId =>
      simp only [hparent] at hparentAttributes
      obtain ⟨text, htext, hattributes⟩ := Run.bind_eq_done_iff.mp hparentAttributes
      cases hattributes
      exact ⟨some text, .some hparent (htree.pathTo_of_parentName hnode hparent htext), rfl⟩

/-! ## The order of the sections -/

/-- What is visited below a node, or at it. -/
theorem IsPlainTree.visits_spec (htree : scene.IsPlainTree root) {fuel : ℕ} {key : NodeId}
    {node : GodotNode} {result : List Visit} (hnode : scene.nodes.lookup key = some node)
    (hdone : scene.visits fuel key node = .done result) :
    TopDown scene.listedChildren [key] (result.map Visit.key) ∧
      ∀ visit ∈ result, ∃ parentPath, scene.VisitsNode root visit parentPath := by
  induction fuel generalizing key node result with
  | zero => nomatch hdone
  | succ fuel ih =>
      obtain ⟨attributes, below, hattributes, hbelow, rfl⟩ :=
        scene.visits_succ_eq_done_iff.mp hdone
      have hchild : ∀ childId ∈ node.childNodeIds, ∀ found,
          scene.childVisits fuel childId = .done found →
            TopDown scene.listedChildren [childId] (found.map Visit.key) ∧
              ∀ visit ∈ found, ∃ parentPath, scene.VisitsNode root visit parentPath := by
        intro childId hlisted found hfound
        obtain ⟨child, hlookup⟩ := Finmap.mem_iff.mp (htree.listed key node hnode childId hlisted)
        simp only [childVisits, hlookup] at hfound
        exact ih hlookup hfound
      constructor
      · have heach : List.Forall₂ (fun childId keys =>
            TopDown scene.listedChildren [childId] keys) node.childNodeIds
            (below.map (List.map Visit.key)) := by
          rw [List.forall₂_map_right_iff]
          apply Run.forall₂_of_mapM_done hbelow
          intro childId hlisted found hfound
          exact (hchild childId hlisted found hfound).1
        have hchildren : scene.listedChildren key = node.childNodeIds := by
          rw [listedChildren, hnode, Option.map_some, Option.getD_some]
        have hall : TopDown scene.listedChildren [key]
            (key :: (below.map (List.map Visit.key)).flatten ++ []) :=
          .cons (hchildren ▸ TopDown.flatten heach) .nil
        rw [List.append_nil] at hall
        rw [List.map_cons, List.map_flatten]
        exact hall
      · intro visit hvisit
        rcases List.mem_cons.mp hvisit with rfl | hvisit
        · obtain ⟨parentPath, hnames, hsame⟩ := htree.exists_namesParent hnode hattributes
          exact ⟨parentPath, hnode, hnames, hsame⟩
        · obtain ⟨found, hfound, hvisit⟩ := List.mem_flatten.mp hvisit
          obtain ⟨childId, hlisted, hvisits⟩ := Run.exists_of_mem_mapM hbelow hfound
          exact (hchild childId hlisted found hvisits).2 visit hvisit

theorem IsTree.rootVisits_eq (htree : scene.IsTree root) (fuel : ℕ) :
    ∃ node, scene.nodes.lookup root = some node ∧
      scene.rootVisits fuel = scene.visits fuel root node := by
  obtain ⟨node, hnode, -⟩ := htree.rootNode
  refine ⟨node, hnode, ?_⟩
  rw [rootVisits, htree.rootNodeId]
  simp only [hnode]

theorem namedParent_eq_some_iff {id parentId : NodeId} :
    scene.namedParent id = some parentId ↔ scene.ParentStep id parentId :=
  Option.bind_eq_some_iff

/-- **Every node has one section, and the children of a node come in their order.** -/
theorem IsPlainTree.listsTree (htree : scene.IsPlainTree root) {fuel : ℕ} {visits : List Visit}
    (hdone : scene.rootVisits fuel = .done visits) :
    scene.ListsTree (visits.map Visit.key) := by
  obtain ⟨node, hnode, hvisits⟩ := htree.rootVisits_eq fuel
  rw [hvisits] at hdone
  have hnodup := visits_nodup htree.consistent hnode hdone
  have hmem : ∀ id, id ∈ visits.map Visit.key ↔ id ∈ scene.nodes := by
    intro id
    rw [List.mem_map, exists_mem_visits_iff hnode hdone]
    constructor
    · exact mem_of_reflTransGen_childStep htree.root_mem
    · intro hid
      exact (reflTransGen_childStep_iff htree.consistent htree.root_mem).mpr
        (htree.leadsToRoot id hid)
  have hparent : ∀ id child, child ∈ scene.listedChildren id →
      scene.namedParent child = some id := by
    intro id child hchild
    rw [namedParent_eq_some_iff]
    unfold listedChildren at hchild
    cases hlookup : scene.nodes.lookup id with
    | none => simp [hlookup] at hchild
    | some parent =>
        rw [hlookup, Option.map_some, Option.getD_some] at hchild
        obtain ⟨found, hfound⟩ := Finmap.mem_iff.mp (htree.listed id parent hlookup child hchild)
        exact ⟨found, hfound, (htree.mem_childNodeIds_iff hlookup hfound).mp hchild⟩
  have hroot : ∀ first ∈ [root], ∀ id ∈ visits.map Visit.key,
      scene.namedParent first ≠ some id := by
    intro first hfirst id _ hsome
    rw [List.mem_singleton.mp hfirst] at hsome
    exact htree.not_parentStep_root id (namedParent_eq_some_iff.mp hsome)
  refine ⟨hnodup, hmem, fun id hid => ?_⟩
  rw [TopDown.filter_eq hparent (htree.visits_spec hnode hdone).1 hnodup hroot id,
    if_pos ((hmem id).mpr hid)]

end GodotScene

end Backstitch
