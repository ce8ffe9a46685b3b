/-
# Nodes with a type and an id

A node section with a type or an instance, and with an id of its own, is placed as it was read.
Where all sections are of that kind, the second pass of `parse_scene` only collects them.  The
third one comes to its end when every node finds a parent among them.
-/

import Backstitch.Parser.ParsedNodes

namespace Backstitch

namespace NodeState

/-- A section with a type or an instance, and with an id. -/
structure Typed (input : GodotNode × Option String) : Prop where
  typed : input.1.typeOrInstance ≠ none
  assigned : input.1.id ≠ .unassigned

/-- The sections, collected by their ids and by their paths. -/
structure Collects (inputs : List (GodotNode × Option String)) (state : NodeState) : Prop where
  keys : state.keys = inputs.map fun input => input.1.id
  nodes : state.nodes = HashMap.collect (inputs.map fun input => ⟨input.1.id, input.1⟩)
  paths : state.nodeIdByNodePath =
    HashMap.collect (inputs.map fun input => ⟨sectionPath input, input.1.id⟩)
  rooted : ∀ root, (∀ input ∈ inputs, input.2 = none → input.1.id = root) →
    (∃ input ∈ inputs, input.2 = none) → state.rootNodeId = some root

variable {env : ParseEnv} {state : NodeState} {fuel : ℕ}
  {input : GodotNode × Option String}

theorem addNode_of_typed (htyped : Typed input) (hnew : input.1.id ∉ state.nodes) :
    state.addNode env fuel input = .done { state with
      nodes := state.nodes.insert input.1.id input.1
      nodeIdByNodePath := state.nodeIdByNodePath.insert (sectionPath input) input.1.id
      rootNodeId := if input.2 = none then some input.1.id else state.rootNodeId
      keys := state.keys ++ [input.1.id] } := by
  obtain ⟨node, parentPath⟩ := input
  simp only [addNode, assignNodeId, if_neg htyped.assigned, Run.done_bind, placeNode,
    if_neg htyped.typed, if_neg hnew]
  rfl

theorem collect_concat {κ ν : Type} [DecidableEq κ] (entries : List (Entry κ ν))
    (entry : Entry κ ν) : HashMap.collect (entries ++ [entry]) =
      (HashMap.collect entries).insert entry.1 entry.2 := by
  rw [HashMap.collect, List.foldl_append]
  rfl

theorem Collects.empty (parsedNodeIds : Finset NodeId) :
    Collects [] ({ parsedNodeIds := parsedNodeIds } : NodeState) where
  keys := rfl
  nodes := rfl
  paths := rfl
  rooted := by simp

/-- **Sections with types and different ids are collected.** -/
theorem exists_collects {inputs : List (GodotNode × Option String)} {parsedNodeIds : Finset NodeId}
    (htyped : ∀ input ∈ inputs, Typed input)
    (hnodup : (inputs.map fun input => input.1.id).Nodup) :
    ∃ placed, inputs.foldlM (fun state input => state.addNode env fuel input)
      ({ parsedNodeIds := parsedNodeIds } : NodeState) = .done placed ∧ Collects inputs placed := by
  apply Run.exists_foldlM_done (Collects.empty parsedNodeIds)
  intro before input after state hinputs hstate
  have hinput : Typed input := htyped input (by rw [hinputs]; simp)
  have hnew : input.1.id ∉ state.nodes := by
    rw [hstate.nodes, HashMap.mem_collect, List.map_map]
    rw [hinputs, List.map_append, List.map_cons] at hnodup
    intro hmem
    exact (List.nodup_append.mp hnodup).2.2 _ hmem _ List.mem_cons_self rfl
  refine ⟨_, addNode_of_typed hinput hnew, ?_⟩
  constructor
  · rw [List.map_append, ← hstate.keys]
    rfl
  · rw [List.map_append, List.map_singleton, collect_concat, ← hstate.nodes]
  · rw [List.map_append, List.map_singleton, collect_concat, ← hstate.paths]
  · intro root hall hsome
    dsimp only
    split
    · next hnone => rw [hall input (by simp) hnone]
    · next hparent =>
      obtain ⟨rootInput, hmem, hnone⟩ := hsome
      apply hstate.rooted root
      · exact fun other hother => hall other (List.mem_append_left _ hother)
      · refine ⟨rootInput, ?_, hnone⟩
        refine (List.mem_append.mp hmem).resolve_right fun hself => ?_
        rw [List.mem_singleton.mp hself] at hnone
        exact hparent hnone

end NodeState

section Linking

variable {paths : HashMap String NodeId} {nodes : HashMap NodeId GodotNode} {keys : List NodeId}

/-- Every one of these nodes finds a parent among the nodes, or needs none. -/
def FindParents (paths : HashMap String NodeId) (nodes : HashMap NodeId GodotNode)
    (keys : List NodeId) : Prop :=
  ∀ uid ∈ keys, ∃ node linked, nodes.lookup uid = some node ∧
    findParent paths node = .done linked ∧
    ∀ parentId, linked.parentId = some parentId → parentId ∈ nodes

theorem exists_linkNode {uid : NodeId} {node linked : GodotNode}
    (hnode : nodes.lookup uid = some node) (hlinked : findParent paths node = .done linked)
    (hparents : ∀ parentId, linked.parentId = some parentId → parentId ∈ nodes) :
    ∃ next, linkNode paths nodes uid = .done next := by
  simp only [linkNode, hnode, hlinked, Run.done_bind]
  cases hparent : linked.parentId with
  | none => exact ⟨_, rfl⟩
  | some parentId =>
      have hmem : parentId ∈ nodes.insert uid linked :=
        Finmap.mem_insert.mpr (.inr (hparents parentId hparent))
      obtain ⟨parent, hlookup⟩ := Finmap.mem_iff.mp hmem
      simp only [hlookup]
      exact ⟨_, rfl⟩

/-- **Where every node finds a parent, all of them are linked.** -/
theorem exists_foldlM_linkNode (hnodup : keys.Nodup) (hfind : FindParents paths nodes keys) :
    ∃ final, keys.foldlM (linkNode paths) nodes = .done final := by
  have hround : ∀ before uid after state, keys = before ++ uid :: after →
      before.foldlM (linkNode paths) nodes = .done state →
      ∃ next, linkNode paths state uid = .done next ∧
        (before ++ [uid]).foldlM (linkNode paths) nodes = .done next := by
    intro before uid after state hkeys hstate
    obtain ⟨node, linked, hnode, hlinked, hparents⟩ := hfind uid (by rw [hkeys]; simp)
    rw [hkeys] at hnodup
    obtain ⟨hbefore, -, hdisjoint⟩ := List.nodup_append.mp hnodup
    have hlookup := lookup_of_foldlM hbefore hstate
    have hnew : uid ∉ before := fun hmem => hdisjoint uid hmem uid List.mem_cons_self rfl
    -- The rounds before have only given the node children.
    have hself := hlookup uid
    rw [hnode, Option.map_some, if_neg hnew] at hself
    have hlinkedSelf := @findParent_withChildren paths node (node.childNodeIds ++
      before.filter fun key => decide (parentOf paths nodes key = some uid))
    rw [hlinked, Run.done_bind] at hlinkedSelf
    obtain ⟨next, hnext⟩ := exists_linkNode hself hlinkedSelf fun parentId hparent => by
      obtain ⟨parent, hparentNode⟩ := Finmap.mem_iff.mp (hparents parentId hparent)
      rw [← Finmap.lookup_isSome, hlookup parentId, hparentNode]
      rfl
    refine ⟨next, hnext, ?_⟩
    rw [List.foldlM_append, hstate, Run.done_bind, Run.foldlM_cons_eq_done_iff]
    exact ⟨next, hnext, rfl⟩
  obtain ⟨final, hfinal, -⟩ := @Run.exists_foldlM_done _ _ (linkNode paths)
    (fun before state => before.foldlM (linkNode paths) nodes = .done state) keys nodes rfl hround
  exact ⟨final, hfinal⟩

end Linking

end Backstitch
