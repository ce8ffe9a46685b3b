/-
# Paths in a tree

The nodes of a scene in which parents and child lists agree, and in which every chain of
parents ends at the root, form a tree.  Where siblings have different names, without slashes, no
two nodes of the tree have one path, and `get_node_path` returns it.
-/

import Backstitch.Parser.NodePaths
import Backstitch.Parser.WrittenOnce

namespace Backstitch

open Relation

namespace GodotScene

variable (scene : GodotScene)

/-- The nodes form a tree under the root, and parents and child lists agree. -/
structure IsTree (root : NodeId) : Prop where
  rootNodeId : scene.rootNodeId = some root
  keyed : ∀ id node, scene.nodes.lookup id = some node → node.id = id
  rootNode : ∃ node, scene.nodes.lookup root = some node ∧ node.parentId = none
  leadsToRoot : ∀ id ∈ scene.nodes, ReflTransGen scene.ParentStep id root
  consistent : TreeConsistent scene.nodes
  listed : ∀ id node, scene.nodes.lookup id = some node → ∀ child ∈ node.childNodeIds,
    child ∈ scene.nodes

/-- A node of a scene without instances that are edited, under a plain name. -/
structure PlainNode (node : GodotNode) : Prop where
  typed : node.typeOrInstance ≠ none
  nonzero : node.id.id ≠ 0
  unqualified : node.id.rootInstanceId = none
  linked : node.parentPathFallback = none
  named : node.name ≠ ""
  noDot : node.name ≠ "."
  noSlash : '/' ∉ node.name.toList

/-- A tree of plain nodes, of which siblings have different names. -/
structure IsPlainTree (root : NodeId) : Prop extends scene.IsTree root where
  plain : ∀ id node, scene.nodes.lookup id = some node → PlainNode node
  siblings : ∀ first second one two parentId, scene.nodes.lookup first = some one →
    scene.nodes.lookup second = some two → one.parentId = some parentId →
    two.parentId = some parentId → one.name = two.name → first = second

/-- The path of a node: a dot for the root, and below it the path under which the parser would
index the node, given the path of its parent. -/
inductive PathTo (root : NodeId) : NodeId → String → Prop
  | root : PathTo root root "."
  | child {id parentId : NodeId} {node : GodotNode} {parentPath : String}
      (hnode : scene.nodes.lookup id = some node) (hparent : node.parentId = some parentId)
      (hpath : PathTo root parentId parentPath) :
      PathTo root id (NodeState.indexedPath (some parentPath) node.name)

variable {scene} {root : NodeId}

/-! ## The tree -/

theorem IsTree.root_mem (htree : scene.IsTree root) : root ∈ scene.nodes := by
  obtain ⟨node, hnode, -⟩ := htree.rootNode
  exact Finmap.mem_of_lookup_eq_some hnode

theorem IsTree.not_parentStep_root (htree : scene.IsTree root) (parentId : NodeId) :
    ¬ scene.ParentStep root parentId := by
  rintro ⟨node, hnode, hparent⟩
  obtain ⟨other, hother, hnone⟩ := htree.rootNode
  cases hnode.symm.trans hother
  cases hnone.symm.trans hparent

theorem parentStep_unique {child first second : NodeId} (hfirst : scene.ParentStep child first)
    (hsecond : scene.ParentStep child second) : first = second := by
  obtain ⟨node, hnode, hparent⟩ := hfirst
  obtain ⟨other, hother, hotherParent⟩ := hsecond
  cases hnode.symm.trans hother
  exact Option.some.inj (hparent.symm.trans hotherParent)

/-- What leads to the root does not lead back to itself. -/
theorem IsTree.not_transGen (htree : scene.IsTree root) {id : NodeId} (hid : id ∈ scene.nodes) :
    ¬ TransGen scene.ParentStep id id := by
  have hchain := htree.leadsToRoot id hid
  clear hid
  induction hchain using ReflTransGen.head_induction_on with
  | refl =>
      intro hcycle
      obtain ⟨next, hstep, -⟩ := TransGen.head'_iff.mp hcycle
      exact htree.not_parentStep_root next hstep
  | @head child parent hstep _ ih =>
      intro hcycle
      obtain ⟨next, hnext, hback⟩ := TransGen.head'_iff.mp hcycle
      rw [parentStep_unique hnext hstep] at hback
      exact ih (TransGen.tail' hback hstep)

/-- A node other than the root has a parent among the nodes. -/
theorem IsTree.exists_parent (htree : scene.IsTree root) {id : NodeId} {node : GodotNode}
    (hnode : scene.nodes.lookup id = some node) (hne : id ≠ root) :
    ∃ parentId ∈ scene.nodes, node.parentId = some parentId := by
  have hchain := htree.leadsToRoot id (Finmap.mem_of_lookup_eq_some hnode)
  rcases ReflTransGen.cases_head hchain with heq | ⟨parentId, ⟨found, hfound, hparent⟩, hrest⟩
  · exact absurd heq hne
  · cases hnode.symm.trans hfound
    refine ⟨parentId, ?_, hparent⟩
    rcases ReflTransGen.cases_head hrest with rfl | ⟨_, ⟨parent, hlookup, -⟩, -⟩
    · exact htree.root_mem
    · exact Finmap.mem_of_lookup_eq_some hlookup

/-- A parent lists its children, and only them. -/
theorem IsTree.mem_childNodeIds_iff (htree : scene.IsTree root) {id childId : NodeId}
    {node child : GodotNode} (hnode : scene.nodes.lookup id = some node)
    (hchild : scene.nodes.lookup childId = some child) :
    childId ∈ node.childNodeIds ↔ child.parentId = some id := by
  rw [← List.count_pos_iff, htree.consistent childId child id node hchild hnode]
  split <;> simp [*]

/-! ## One path for each node -/

theorem indexedPath_dot (name : String) : NodeState.indexedPath (some ".") name = name := rfl

theorem indexedPath_of_ne {parentPath : String} (hdot : parentPath ≠ ".") (name : String) :
    NodeState.indexedPath (some parentPath) name = parentPath ++ "/" ++ name := if_neg hdot

/-- The parts of a path below the root: those of the path of the parent, and the name. -/
theorem splitAtChar_indexedPath {parentPath name : String} (hdot : parentPath ≠ ".")
    (hslash : '/' ∉ name.toList) :
    splitAtChar '/' (NodeState.indexedPath (some parentPath) name) =
      splitAtChar '/' parentPath ++ [name] := by
  have hsingleton : ("/" : String) = String.singleton '/' := rfl
  rw [indexedPath_of_ne hdot, hsingleton, splitAtChar_append, splitAtChar_of_not_mem hslash]

theorem splitAtChar_ne_singleton {parentPath name other : String}
    (hparts : splitAtChar '/' parentPath ++ [name] = [other]) : False := by
  have hlength := congrArg List.length hparts
  have hparent : splitAtChar '/' parentPath ≠ [] := by simp [splitAtChar]
  have hpositive := List.length_pos_iff.mpr hparent
  rw [List.length_append, List.length_singleton, List.length_singleton] at hlength
  omega

/-- A path below the root determines the path of the parent and the name. -/
theorem indexedPath_inj {parentPath otherPath name otherName : String}
    (hslash : '/' ∉ name.toList) (hotherSlash : '/' ∉ otherName.toList)
    (hsame : NodeState.indexedPath (some parentPath) name =
      NodeState.indexedPath (some otherPath) otherName) :
    parentPath = otherPath ∧ name = otherName := by
  have hparts := congrArg (splitAtChar '/') hsame
  by_cases hdot : parentPath = "."
  · subst hdot
    rw [indexedPath_dot, splitAtChar_of_not_mem hslash] at hparts
    by_cases hother : otherPath = "."
    · subst hother
      exact ⟨rfl, hsame⟩
    · rw [splitAtChar_indexedPath hother hotherSlash] at hparts
      exact (splitAtChar_ne_singleton hparts.symm).elim
  · rw [splitAtChar_indexedPath hdot hslash] at hparts
    by_cases hother : otherPath = "."
    · subst hother
      rw [indexedPath_dot, splitAtChar_of_not_mem hotherSlash] at hparts
      exact (splitAtChar_ne_singleton hparts).elim
    · rw [splitAtChar_indexedPath hother hotherSlash] at hparts
      obtain ⟨hparents, hnames⟩ := List.append_inj' hparts rfl
      exact ⟨splitAtChar_injective '/' hparents, List.singleton_inj.mp hnames⟩

/-- No node below the root has the path of the root. -/
theorem indexedPath_ne_dot {parentPath name : String} (hdot : name ≠ ".")
    (hslash : '/' ∉ name.toList) : NodeState.indexedPath (some parentPath) name ≠ "." := by
  intro hsame
  obtain ⟨-, hname⟩ := indexedPath_inj hslash (by decide : '/' ∉ ".".toList)
    (hsame.trans (indexedPath_dot ".").symm)
  exact hdot hname

theorem IsTree.exists_pathTo (htree : scene.IsTree root) {id : NodeId} (hid : id ∈ scene.nodes) :
    ∃ path, scene.PathTo root id path := by
  have hchain := htree.leadsToRoot id hid
  clear hid
  induction hchain using ReflTransGen.head_induction_on with
  | refl => exact ⟨".", .root⟩
  | head hstep _ ih =>
      obtain ⟨node, hnode, hparent⟩ := hstep
      obtain ⟨parentPath, hpath⟩ := ih
      exact ⟨_, .child hnode hparent hpath⟩

/-- **No two nodes of a tree have one path.** -/
theorem IsPlainTree.pathTo_inj (htree : scene.IsPlainTree root) {first second : NodeId}
    {path : String} (hfirst : scene.PathTo root first path)
    (hsecond : scene.PathTo root second path) : first = second := by
  induction hfirst generalizing second with
  | root =>
      generalize hdot : "." = path at hsecond
      cases hsecond with
      | root => rfl
      | child hnode _ _ =>
          have hplain := htree.plain _ _ hnode
          exact absurd hdot.symm (indexedPath_ne_dot hplain.noDot hplain.noSlash)
  | @child first parentId node parentPath hnode hparent _ ih =>
      have hplain := htree.plain _ _ hnode
      generalize hsame : NodeState.indexedPath (some parentPath) node.name = path at hsecond
      cases hsecond with
      | root => exact absurd hsame (indexedPath_ne_dot hplain.noDot hplain.noSlash)
      | child hother hotherParent hotherPath =>
          have hotherPlain := htree.plain _ _ hother
          obtain ⟨rfl, hname⟩ := indexedPath_inj hplain.noSlash hotherPlain.noSlash hsame
          obtain rfl := ih hotherPath
          exact htree.siblings _ _ _ _ _ hnode hother hparent hotherParent hname

/-- A node has one path. -/
theorem IsTree.pathTo_unique (htree : scene.IsTree root) {id : NodeId} {first second : String}
    (hfirst : scene.PathTo root id first) (hsecond : scene.PathTo root id second) :
    first = second := by
  induction hfirst generalizing second with
  | root =>
      cases hsecond with
      | root => rfl
      | child hnode hparent _ => exact absurd ⟨_, hnode, hparent⟩ (htree.not_parentStep_root _)
  | child hnode hparent _ ih =>
      cases hsecond with
      | root => exact absurd ⟨_, hnode, hparent⟩ (htree.not_parentStep_root _)
      | child hother hotherParent hotherPath =>
          cases hnode.symm.trans hother
          cases hparent.symm.trans hotherParent
          rw [ih hotherPath]

/-! ## The path walk -/

theorem IsTree.rootIdOrUnassigned_eq (htree : scene.IsTree root) :
    scene.rootIdOrUnassigned = root := by
  rw [rootIdOrUnassigned, htree.rootNodeId, Option.getD_some]

/-- The walk up from a node puts its whole path in front. -/
theorem IsPlainTree.exists_getNodePathLoop (htree : scene.IsPlainTree root) {id : NodeId}
    {path : String} (hpath : scene.PathTo root id path) (hne : id ≠ root) (below : String) :
    ∃ fuel, scene.getNodePathLoop fuel below id = .done (joinPath path below) := by
  induction hpath generalizing below with
  | root => exact absurd rfl hne
  | @child id parentId node parentPath hnode hparent hpath ih =>
      have hplain := htree.plain id node hnode
      by_cases hroot : parentId = root
      · obtain rfl : parentPath = "." := htree.pathTo_unique (hroot ▸ hpath) .root
        refine ⟨1, ?_⟩
        simp only [getNodePathLoop, hnode, hplain.linked, hparent, htree.rootIdOrUnassigned_eq,
          if_pos hroot, joinPath_name, indexedPath_dot]
      · have hdot : parentPath ≠ "." := by
          rintro rfl
          exact hroot (htree.pathTo_inj hpath .root)
        obtain ⟨fuel, hdone⟩ := ih hroot (joinPath node.name below)
        refine ⟨fuel + 1, ?_⟩
        simp only [getNodePathLoop, hnode, hplain.linked, hparent, htree.rootIdOrUnassigned_eq,
          if_neg hroot, joinPath_name]
        rw [hdone, joinPath_joinPath hplain.named, indexedPath_of_ne hdot]

/-- **`get_node_path` returns the path of a node.** -/
theorem IsPlainTree.exists_getNodePath (htree : scene.IsPlainTree root) {id : NodeId}
    {path : String} (hpath : scene.PathTo root id path) :
    ∃ fuel, scene.getNodePath fuel id = .done path := by
  unfold getNodePath
  rw [htree.rootIdOrUnassigned_eq]
  by_cases hroot : id = root
  · subst hroot
    exact ⟨0, by rw [if_pos rfl, htree.pathTo_unique hpath .root]⟩
  · obtain ⟨fuel, hdone⟩ := htree.exists_getNodePathLoop hpath hroot ""
    exact ⟨fuel, by rw [if_neg hroot, hdone]; rfl⟩

/-- Whatever `get_node_path` returns for a node of the tree is the path of it. -/
theorem IsPlainTree.pathTo_of_getNodePath (htree : scene.IsPlainTree root) {id : NodeId}
    (hid : id ∈ scene.nodes) {fuel : ℕ} {text : String}
    (hdone : scene.getNodePath fuel id = .done text) : scene.PathTo root id text := by
  obtain ⟨path, hpath⟩ := htree.exists_pathTo hid
  obtain ⟨more, hmore⟩ := htree.exists_getNodePath hpath
  have hleft := scene.getNodePath_mono hdone (Nat.le_max_left fuel more)
  have hright := scene.getNodePath_mono hmore (Nat.le_max_right fuel more)
  obtain rfl := Run.done.inj (hleft.symm.trans hright)
  exact hpath

end GodotScene

end Backstitch
