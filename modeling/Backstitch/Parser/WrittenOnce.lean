/-
# Every node once

`serialize_node` trusts the child lists alone, so a node that two parents list is
written twice and a node that nobody lists is not written at all.  Where parents
and child lists agree, the nodes that are written are those whose parents lead to
the root, each of them once.
-/

import Backstitch.Parser.Determinism
import Backstitch.Parser.ParseTree

namespace Backstitch

open Relation

namespace GodotScene

variable (scene : GodotScene)

/-- From a node to the node that it names as its parent. -/
def ParentStep (child parent : NodeId) : Prop :=
  ∃ node, scene.nodes.lookup child = some node ∧ node.parentId = some parent

/-- A node from which the parents lead to the root. -/
def ChainsToRoot (id : NodeId) : Prop :=
  id ∈ scene.nodes ∧ ∃ rootNodeId, scene.rootNodeId = some rootNodeId ∧
    ReflTransGen scene.ParentStep id rootNodeId

/-- The `[node]` sections of the text, in order. -/
def nodeSections (fuel : ℕ) : Run (List Visit) :=
  match scene.mainResource with
  | some _ => .done []
  | none => scene.rootVisits fuel

/-- Whenever a call of `serialize` ends, it has written exactly one section for
every node that leads to the root, and for no node two. -/
def WritesEachNodeOnce : Prop :=
  ∀ orders fuel text, orders.Of scene → scene.serialize orders fuel = .done text →
    ∃ visits, scene.nodeSections fuel = .done visits ∧ (visits.map Visit.key).Nodup ∧
      ∀ id, scene.ChainsToRoot id → id ∈ visits.map Visit.key

variable {scene}

/-! ## Parents and children in step -/

section Tree

variable (htree : TreeConsistent scene.nodes)
include htree

/-- The children that the recursion goes to are those that name this parent. -/
theorem childStep_iff_parentStep {parent child : NodeId} :
    scene.ChildStep parent child ↔ parent ∈ scene.nodes ∧ scene.ParentStep child parent := by
  constructor
  · intro ⟨node, hnode, hlisted, hmem⟩
    obtain ⟨childNode, hchild⟩ := Finmap.mem_iff.mp hmem
    have hcount := htree child childNode parent node hchild hnode
    have hpositive := List.count_pos_iff.mpr hlisted
    have hparent : childNode.parentId = some parent := by
      by_contra hother
      rw [if_neg hother] at hcount
      omega
    exact ⟨Finmap.mem_of_lookup_eq_some hnode, childNode, hchild, hparent⟩
  · intro ⟨hmem, childNode, hchild, hparent⟩
    obtain ⟨node, hnode⟩ := Finmap.mem_iff.mp hmem
    have hcount := htree child childNode parent node hchild hnode
    rw [if_pos hparent] at hcount
    refine ⟨node, hnode, List.count_pos_iff.mp (by omega), ?_⟩
    exact Finmap.mem_of_lookup_eq_some hchild

/-- Nobody is reached as a child of two parents. -/
theorem childStep_unique {first second child : NodeId} (hfirst : scene.ChildStep first child)
    (hsecond : scene.ChildStep second child) : first = second := by
  obtain ⟨-, node, hnode, hparent⟩ := (childStep_iff_parentStep htree).mp hfirst
  obtain ⟨-, other, hother, hotherParent⟩ := (childStep_iff_parentStep htree).mp hsecond
  cases hnode.symm.trans hother
  exact Option.some.inj (hparent.symm.trans hotherParent)

/-- Of two nodes above a third one, one is above the other. -/
theorem childStep_total {first second target : NodeId}
    (hfirst : ReflTransGen scene.ChildStep first target)
    (hsecond : ReflTransGen scene.ChildStep second target) :
    ReflTransGen scene.ChildStep first second ∨ ReflTransGen scene.ChildStep second first := by
  have hunique : Relator.RightUnique (Function.swap scene.ChildStep) :=
    fun _ _ _ hone htwo => childStep_unique htree hone htwo
  rcases ReflTransGen.total_of_right_unique hunique (reflTransGen_swap.mpr hfirst)
    (reflTransGen_swap.mpr hsecond) with hpath | hpath
  · exact .inr (reflTransGen_swap.mp hpath)
  · exact .inl (reflTransGen_swap.mp hpath)

/-- The parents lead from a node to an existing root exactly when the recursion
leads from the root to the node. -/
theorem reflTransGen_childStep_iff {root id : NodeId} (hroot : root ∈ scene.nodes) :
    ReflTransGen scene.ChildStep root id ↔ ReflTransGen scene.ParentStep id root := by
  constructor
  · intro hreach
    apply reflTransGen_swap.mp
    apply ReflTransGen.mono _ _ _ hreach
    intro parent child hstep
    exact ((childStep_iff_parentStep htree).mp hstep).2
  · intro hchain
    induction hchain using ReflTransGen.head_induction_on with
    | refl => exact .refl
    | @head child parent hstep hrest ih =>
        have hparent : parent ∈ scene.nodes := by
          rcases ReflTransGen.cases_head hrest with rfl | ⟨_, ⟨node, hnode, -⟩, -⟩
          · exact hroot
          · exact Finmap.mem_of_lookup_eq_some hnode
        exact ih.tail ((childStep_iff_parentStep htree).mpr ⟨hparent, hstep⟩)

/-- An existing node is listed at most once. -/
theorem pairwise_childNodeIds {key : NodeId} {node : GodotNode}
    (hnode : scene.nodes.lookup key = some node) :
    node.childNodeIds.Pairwise fun first second => first ∈ scene.nodes → first ≠ second := by
  have hnodup : (node.childNodeIds.filter (· ∈ scene.nodes)).Nodup := by
    rw [List.nodup_iff_count_le_one]
    intro id
    by_cases hid : id ∈ scene.nodes
    · rw [List.count_filter (by simpa using hid)]
      obtain ⟨child, hchild⟩ := Finmap.mem_iff.mp hid
      rw [htree id child key node hchild hnode]
      split <;> omega
    · have hout : id ∉ node.childNodeIds.filter (· ∈ scene.nodes) := by simp [hid]
      rw [List.count_eq_zero_of_not_mem hout]
      omega
  rw [List.Nodup, List.pairwise_filter] at hnodup
  refine hnodup.imp ?_
  intro first second hne hfirst heq
  subst heq
  exact hne (by simpa using hfirst) (by simpa using hfirst) rfl

/-- **What is written below a node is written once.** -/
theorem visits_nodup {fuel : ℕ} {key : NodeId} {node : GodotNode} {result : List Visit}
    (hnode : scene.nodes.lookup key = some node)
    (hdone : scene.visits fuel key node = .done result) : (result.map Visit.key).Nodup := by
  induction fuel generalizing key node result with
  | zero => nomatch hdone
  | succ fuel ih =>
      have hacyclic : ¬ TransGen scene.ChildStep key key := by
        have hcompletes := (exists_visits_iff hnode).mp ⟨_, _, hdone⟩
        exact not_transGen_self_of_acc (completes_iff_acc.mp hcompletes).1
      obtain ⟨attributes, below, -, hbelow, rfl⟩ := scene.visits_succ_eq_done_iff.mp hdone
      -- what one listed child contributes is reached through that child
      have hchild : ∀ childId ∈ node.childNodeIds, ∀ found,
          scene.childVisits fuel childId = .done found → (found.map Visit.key).Nodup ∧
            ∀ target ∈ found.map Visit.key, scene.ChildStep key childId ∧
              ReflTransGen scene.ChildStep childId target := by
        intro childId hlisted found hfound
        unfold childVisits at hfound
        cases hlookup : scene.nodes.lookup childId with
        | none =>
            simp only [hlookup, Run.done.injEq] at hfound
            simp [← hfound]
        | some child =>
            simp only [hlookup] at hfound
            refine ⟨ih hlookup hfound, fun target htarget => ⟨?_, ?_⟩⟩
            · exact (childStep_of_lookup hnode).mpr
                ⟨hlisted, Finmap.mem_of_lookup_eq_some hlookup⟩
            · exact (exists_mem_visits_iff hlookup hfound).mp (List.mem_map.mp htarget)
      rw [List.map_cons, List.map_flatten, List.nodup_cons, List.nodup_flatten]
      refine ⟨?_, ?_, ?_⟩
      · intro hmem
        obtain ⟨keys, hkeys, hmem⟩ := List.mem_flatten.mp hmem
        obtain ⟨found, hfound, rfl⟩ := List.mem_map.mp hkeys
        obtain ⟨childId, hlisted, hvisits⟩ := Run.exists_of_mem_mapM hbelow hfound
        obtain ⟨hstep, hreach⟩ := (hchild childId hlisted found hvisits).2 key hmem
        exact hacyclic (TransGen.head' hstep hreach)
      · intro keys hkeys
        obtain ⟨found, hfound, rfl⟩ := List.mem_map.mp hkeys
        obtain ⟨childId, hlisted, hvisits⟩ := Run.exists_of_mem_mapM hbelow hfound
        exact (hchild childId hlisted found hvisits).1
      · rw [List.pairwise_map]
        apply Run.pairwise_of_mapM_done hbelow (pairwise_childNodeIds htree hnode)
        intro first hfirst second hsecond hne one two hone htwo target htargetOne htargetTwo
        obtain ⟨hstepOne, hreachOne⟩ := (hchild first hfirst one hone).2 target htargetOne
        obtain ⟨hstepTwo, hreachTwo⟩ := (hchild second hsecond two htwo).2 target htargetTwo
        have hdistinct : first ≠ second := by
          obtain ⟨_, _, _, hmem⟩ := hstepOne
          exact hne hmem
        -- a path between two children of one node leads back to that node
        have hback : ∀ upper lower, scene.ChildStep key upper → scene.ChildStep key lower →
            upper ≠ lower → ¬ ReflTransGen scene.ChildStep upper lower := by
          intro upper lower hupper hlower hother hpath
          rcases ReflTransGen.cases_tail hpath with heq | ⟨parent, hrest, hlast⟩
          · exact hother heq.symm
          · rw [childStep_unique htree hlast hlower] at hrest
            exact hacyclic (TransGen.head' hupper hrest)
        rcases childStep_total htree hreachOne hreachTwo with hpath | hpath
        · exact hback _ _ hstepOne hstepTwo hdistinct hpath
        · exact hback _ _ hstepTwo hstepOne hdistinct.symm hpath

end Tree

/-- **Where parents and child lists agree and the root exists, every node that
leads to the root is written once.** -/
theorem writesEachNodeOnce_of_treeConsistent (htree : TreeConsistent scene.nodes)
    (hmain : scene.mainResource = none)
    (hroot : ∀ rootNodeId, scene.rootNodeId = some rootNodeId → rootNodeId ∈ scene.nodes) :
    scene.WritesEachNodeOnce := by
  intro orders fuel text _ hdone
  obtain ⟨visits, _, hvisits, -, -⟩ := (scene.serialize_eq_done_iff hmain).mp hdone
  refine ⟨visits, by rw [nodeSections, hmain]; exact hvisits, ?_, ?_⟩
  · unfold rootVisits at hvisits
    split at hvisits
    · cases hvisits
      exact List.nodup_nil
    · split at hvisits
      · cases hvisits
        exact List.nodup_nil
      · rename_i hnode
        exact visits_nodup htree hnode hvisits
  · intro id ⟨hid, rootNodeId, hrootId, hchain⟩
    have hpresent := hroot rootNodeId hrootId
    have hreach := (reflTransGen_childStep_iff htree hpresent).mpr hchain
    obtain ⟨rootNode, hnode⟩ := Finmap.mem_iff.mp hpresent
    simp only [rootVisits, hrootId, hnode] at hvisits
    exact List.mem_map.mpr ((exists_mem_visits_iff hnode hvisits).mpr hreach)

end GodotScene

end Backstitch
