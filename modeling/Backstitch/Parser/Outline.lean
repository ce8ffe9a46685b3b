/-
# The outline of a written scene

What `serialize` decides before it iterates any property map: which nodes it
writes, in which order and with which attributes, and which attributes each
connection gets.  The outline does not depend on any iteration order, and the
text is assembled from it by one fold.  Fuel only ever delays an outline; it
never changes one.
-/

import Backstitch.Parser.Serialize

namespace Backstitch

/-- One `[node]` section: the key the node was reached by, the node, and the
attributes written for it. -/
structure Visit where
  key : NodeId
  node : GodotNode
  attributes : List Attribute

namespace Visit

/-- The text of one section, for the iteration orders of one run. -/
def text (orders : IterationOrders) (visit : Visit) : String :=
  headingText "node" visit.attributes ++ propertiesText (orders.nodeProperties visit.key) ++
    "\n"

/-- Record one visit. -/
def record (visited : HashMap NodeId ℤ) (visit : Visit) : HashMap NodeId ℤ :=
  visited.insert visit.node.id visited.keys.card

end Visit

namespace GodotScene

variable (scene : GodotScene)

/-- The nodes that `serialize_node` writes, in the order it writes them. -/
def visits : ℕ → NodeId → GodotNode → Run (List Visit)
  | 0, _, _ => .running
  | fuel + 1, key, node => do
      let attributes ← scene.nodeAttributes fuel node
      let below ← node.childNodeIds.mapM fun childId =>
        match scene.nodes.lookup childId with
        | some child => visits fuel childId child
        | none => .done []
      return ⟨key, node, attributes⟩ :: below.flatten

/-- What one listed child contributes. -/
def childVisits (fuel : ℕ) (childId : NodeId) : Run (List Visit) :=
  match scene.nodes.lookup childId with
  | some child => scene.visits fuel childId child
  | none => .done []

/-- A subtree is visited when its node can be written and every listed child is
visited. -/
theorem visits_succ_eq_done_iff {fuel : ℕ} {key : NodeId} {node : GodotNode}
    {result : List Visit} :
    scene.visits (fuel + 1) key node = .done result ↔
      ∃ attributes below, scene.nodeAttributes fuel node = .done attributes ∧
        node.childNodeIds.mapM (scene.childVisits fuel) = .done below ∧
        result = ⟨key, node, attributes⟩ :: below.flatten := by
  constructor
  · intro hdone
    obtain ⟨attributes, hattributes, hrest⟩ := Run.bind_eq_done_iff.mp hdone
    obtain ⟨below, hbelow, hresult⟩ := Run.bind_eq_done_iff.mp hrest
    cases hresult
    exact ⟨attributes, below, hattributes, hbelow, rfl⟩
  · rintro ⟨attributes, below, hattributes, hbelow, rfl⟩
    exact Run.bind_eq_done_iff.mpr
      ⟨attributes, hattributes, Run.bind_eq_done_iff.mpr ⟨below, hbelow, rfl⟩⟩

/-- The nodes written for the whole scene. -/
def rootVisits (fuel : ℕ) : Run (List Visit) :=
  match scene.rootNodeId with
  | none => .done []
  | some rootNodeId =>
      match scene.nodes.lookup rootNodeId with
      | none => .done []
      | some rootNode => scene.visits fuel rootNodeId rootNode

/-- The positions that connections are sorted by. -/
def positions (visits : List Visit) : HashMap NodeId ℤ := visits.foldl Visit.record ∅

/-! ## `serialize_node` follows the outline -/

theorem write_foldl (orders : IterationOrders) (visits : List Visit) (written : NodeOutput) :
    visits.foldl (fun written visit =>
        written.write orders visit.key visit.node visit.attributes) written =
      ⟨written.output ++ String.join (visits.map (Visit.text orders)),
        visits.foldl Visit.record written.nodePathsVisited⟩ := by
  induction visits generalizing written with
  | nil => simp
  | cons visit visits ih =>
      rw [List.foldl_cons, ih]
      simp [NodeOutput.write, Visit.text, Visit.record, String.append_assoc]

/-- Folding over the children one at a time is folding over all their visits. -/
theorem foldlM_eq_mapM_flatten {α β γ : Type} (step : γ → β → γ)
    (visit : α → Run (List β)) (items : List α) (start : γ) :
    items.foldlM (fun state item => visit item >>= fun found => .done (found.foldl step state))
        start =
      items.mapM visit >>= fun found => .done (found.flatten.foldl step start) := by
  induction items generalizing start with
  | nil => rfl
  | cons item items ih =>
      rw [List.foldlM_cons, List.mapM_cons]
      cases visit item with
      | done first =>
          simp only [Run.done_bind, Run.pure_eq_done, bind_assoc, ih, List.flatten_cons,
            List.foldl_append]
      | fail message => rfl
      | panic => rfl
      | running => rfl

/-- `serialize_node` writes the visits of its node, in order. -/
theorem serializeNode_eq (orders : IterationOrders) (fuel : ℕ) (key : NodeId)
    (node : GodotNode) (written : NodeOutput) :
    scene.serializeNode orders fuel key node written =
      scene.visits fuel key node >>= fun visits =>
        .done (visits.foldl (fun written visit =>
          written.write orders visit.key visit.node visit.attributes) written) := by
  induction fuel generalizing key node written with
  | zero => rfl
  | succ fuel ih =>
      simp only [serializeNode, visits, bind_assoc]
      cases scene.nodeAttributes fuel node with
      | done attributes =>
          simp only [Run.done_bind, Run.pure_eq_done, List.foldl_cons]
          rw [← foldlM_eq_mapM_flatten]
          congr 1
          funext state childId
          cases scene.nodes.lookup childId with
          | none => rfl
          | some child => exact ih childId child state
      | fail message => rfl
      | panic => rfl
      | running => rfl

/-- The text of the nodes.  Without anything to follow, the blank line after the
last one is taken back. -/
def nodesText (orders : IterationOrders) (visits : List Visit) : String :=
  let text := String.join (visits.map (Visit.text orders))
  if visits ≠ [] ∧ scene.connections = ∅ ∧ scene.editableInstances = [] then
    String.ofList text.toList.dropLast
  else text

/-- Some line is written for every node, and the last one is blank. -/
theorem exists_toList_join_eq (orders : IterationOrders) {visits : List Visit}
    (hvisits : visits ≠ []) :
    ∃ text, (String.join (visits.map (Visit.text orders))).toList = text ++ ['\n'] := by
  rw [← List.dropLast_concat_getLast hvisits, List.map_append, String.join_append, List.map_cons,
    List.map_nil, String.join_cons,
    String.join_nil, String.append_empty, Visit.text, String.toList_append,
    String.toList_append]
  exact ⟨_, (List.append_assoc _ _ _).symm⟩

theorem serializeRoot_eq (orders : IterationOrders) (fuel : ℕ) :
    scene.serializeRoot orders fuel (scene.resourcesText id false orders) =
      scene.rootVisits fuel >>= fun visits =>
        .done ⟨scene.resourcesText id false orders ++ scene.nodesText orders visits,
          positions visits⟩ := by
  have hempty : (.done ⟨scene.resourcesText id false orders, ∅⟩ : Run NodeOutput) =
      .done ⟨scene.resourcesText id false orders ++ scene.nodesText orders [],
        positions []⟩ := by
    simp [nodesText, positions]
  unfold serializeRoot rootVisits
  cases hroot : scene.rootNodeId with
  | none => exact hempty
  | some rootNodeId =>
      simp only
      cases hnode : scene.nodes.lookup rootNodeId with
      | none => exact hempty
      | some rootNode =>
          simp only [serializeNode_eq, bind_assoc, Run.done_bind]
          cases hvisits : scene.visits fuel rootNodeId rootNode with
          | done visits =>
              have hne : visits ≠ [] := by
                rintro rfl
                cases fuel with
                | zero => cases hvisits
                | succ fuel =>
                    obtain ⟨_, _, _, _, hresult⟩ := scene.visits_succ_eq_done_iff.mp hvisits
                    cases hresult
              simp only [Run.done_bind, write_foldl, Run.pure_eq_done, nodesText, positions,
                ne_eq, hne, not_false_eq_true, true_and]
              split
              · obtain ⟨text, htext⟩ := exists_toList_join_eq orders hne
                simp only [String.toList_append, htext, ← List.append_assoc,
                  List.dropLast_concat, String.ofList_append, String.ofList_toList]
              · rfl
          | fail message => rfl
          | panic => rfl
          | running => rfl

/-- The entries of the connections in the order they are written. -/
def sortedConnections (orders : IterationOrders) (visits : List Visit) :
    List (Entry String GodotConnection) :=
  sortByKey (fun entry => connectionKey (positions visits) entry.2) orders.connections

/-- Without a main resource the text is put together from the outline. -/
theorem serialize_eq (hmain : scene.mainResource = none) (orders : IterationOrders)
    (fuel : ℕ) :
    scene.serialize orders fuel = (do
      let visits ← scene.rootVisits fuel
      let connections ← (sortedConnections orders visits).mapM fun entry =>
        scene.connectionText fuel entry.2
      return scene.resourcesText id false orders ++ scene.nodesText orders visits ++
        String.join connections ++ scene.editablesText) := by
  simp only [serialize, serializeWithExtResourceOverride, hmain, serializeRoot_eq,
    bind_assoc, Run.done_bind]
  rfl

theorem serialize_eq_done_iff (hmain : scene.mainResource = none) {orders : IterationOrders}
    {fuel : ℕ} {text : String} :
    scene.serialize orders fuel = .done text ↔
      ∃ visits connections, scene.rootVisits fuel = .done visits ∧
        (sortedConnections orders visits).mapM
          (fun entry => scene.connectionText fuel entry.2) = .done connections ∧
        text = scene.resourcesText id false orders ++ scene.nodesText orders visits ++
          String.join connections ++ scene.editablesText := by
  rw [serialize_eq scene hmain]
  constructor
  · intro hdone
    obtain ⟨visits, hvisits, hrest⟩ := Run.bind_eq_done_iff.mp hdone
    obtain ⟨connections, hconnections, hresult⟩ := Run.bind_eq_done_iff.mp hrest
    cases hresult
    exact ⟨visits, connections, hvisits, hconnections, rfl⟩
  · rintro ⟨visits, connections, hvisits, hconnections, rfl⟩
    simp [hvisits, hconnections]

/-- With a main resource the text always comes back. -/
theorem serialize_of_mainResource {resource : SubResourceNode}
    (hmain : scene.mainResource = some resource) (orders : IterationOrders) (fuel : ℕ) :
    scene.serialize orders fuel =
      .done (scene.resourcesText id false orders ++ "[resource]\n" ++
        propertiesText orders.mainResourceProperties) := by
  simp only [serialize, serializeWithExtResourceOverride, hmain]

/-! ## More fuel -/

theorem getNodePathLoop_mono {fuel more : ℕ} {path : String} {id : NodeId} {result : String}
    (hdone : scene.getNodePathLoop fuel path id = .done result) (hle : fuel ≤ more) :
    scene.getNodePathLoop more path id = .done result := by
  induction fuel generalizing more path id with
  | zero => nomatch hdone
  | succ fuel ih =>
      obtain ⟨more, rfl⟩ := Nat.exists_eq_add_of_le' (Nat.zero_lt_of_lt hle)
      cases hnode : scene.nodes.lookup id with
      | none => simp [getNodePathLoop, hnode] at hdone
      | some node =>
          cases hfallback : node.parentPathFallback with
          | some parentPath =>
              simpa [getNodePathLoop, hnode, hfallback] using hdone
          | none =>
              cases hparent : node.parentId with
              | none => simpa [getNodePathLoop, hnode, hfallback, hparent] using hdone
              | some parentId =>
                  simp only [getNodePathLoop, hnode, hfallback, hparent] at hdone ⊢
                  by_cases hroot : parentId = scene.rootIdOrUnassigned
                  · simpa only [if_pos hroot] using hdone
                  · rw [if_neg hroot] at hdone ⊢
                    exact ih hdone (by omega)

theorem getNodePath_mono {fuel more : ℕ} {id : NodeId} {result : String}
    (hdone : scene.getNodePath fuel id = .done result) (hle : fuel ≤ more) :
    scene.getNodePath more id = .done result := by
  unfold getNodePath at hdone ⊢
  by_cases hroot : id = scene.rootIdOrUnassigned
  · simpa only [if_pos hroot] using hdone
  · rw [if_neg hroot] at hdone ⊢
    exact scene.getNodePathLoop_mono hdone hle

theorem parentName_mono {fuel more : ℕ} {node : GodotNode} {parentId : NodeId}
    {result : String} (hdone : scene.parentName fuel node parentId = .done result)
    (hle : fuel ≤ more) : scene.parentName more node parentId = .done result := by
  unfold parentName at hdone ⊢
  by_cases hroot : scene.rootNodeId = some parentId
  · simpa only [if_pos hroot] using hdone
  · rw [if_neg hroot] at hdone ⊢
    cases hfallback : node.parentPathFallback with
    | some parentPath => simpa only [hfallback] using hdone
    | none =>
        simp only [hfallback] at hdone ⊢
        exact scene.getNodePath_mono hdone hle

theorem nodeAttributes_mono {fuel more : ℕ} {node : GodotNode} {result : List Attribute}
    (hdone : scene.nodeAttributes fuel node = .done result) (hle : fuel ≤ more) :
    scene.nodeAttributes more node = .done result := by
  unfold nodeAttributes parentAttributes at hdone ⊢
  split at hdone
  · exact hdone
  · obtain ⟨attributes, hparent, hresult⟩ := Run.bind_eq_done_iff.mp hdone
    obtain ⟨parent, hname, hattributes⟩ := Run.bind_eq_done_iff.mp hparent
    refine Run.bind_eq_done_iff.mpr ⟨attributes, ?_, hresult⟩
    exact Run.bind_eq_done_iff.mpr ⟨parent, scene.parentName_mono hname hle, hattributes⟩

theorem visits_mono {fuel more : ℕ} {key : NodeId} {node : GodotNode} {result : List Visit}
    (hdone : scene.visits fuel key node = .done result) (hle : fuel ≤ more) :
    scene.visits more key node = .done result := by
  induction fuel generalizing more key node result with
  | zero => nomatch hdone
  | succ fuel ih =>
      obtain ⟨more, rfl⟩ := Nat.exists_eq_add_of_le' (Nat.zero_lt_of_lt hle)
      obtain ⟨attributes, below, hattributes, hbelow, rfl⟩ :=
        scene.visits_succ_eq_done_iff.mp hdone
      refine scene.visits_succ_eq_done_iff.mpr ⟨attributes, below,
        scene.nodeAttributes_mono hattributes (by omega), ?_, rfl⟩
      refine Run.mapM_done_mono hbelow fun childId _ childVisits hchild => ?_
      unfold GodotScene.childVisits at hchild ⊢
      split at hchild
      · exact ih hchild (by omega)
      · exact hchild

theorem childVisits_mono {fuel more : ℕ} {childId : NodeId} {result : List Visit}
    (hdone : scene.childVisits fuel childId = .done result) (hle : fuel ≤ more) :
    scene.childVisits more childId = .done result := by
  unfold childVisits at hdone ⊢
  split at hdone
  · exact scene.visits_mono hdone hle
  · exact hdone

theorem rootVisits_mono {fuel more : ℕ} {result : List Visit}
    (hdone : scene.rootVisits fuel = .done result) (hle : fuel ≤ more) :
    scene.rootVisits more = .done result := by
  unfold rootVisits at hdone ⊢
  cases hroot : scene.rootNodeId with
  | none => simpa only [hroot] using hdone
  | some rootNodeId =>
      simp only [hroot] at hdone ⊢
      cases hnode : scene.nodes.lookup rootNodeId with
      | none => simpa only [hnode] using hdone
      | some rootNode =>
          simp only [hnode] at hdone ⊢
          exact scene.visits_mono hdone hle

/-- A connection is written when both its ends have a path. -/
theorem connectionText_eq_done_iff {fuel : ℕ} {connection : GodotConnection}
    {result : String} :
    scene.connectionText fuel connection = .done result ↔
      ∃ fromPath toPath, scene.getNodePath fuel connection.fromNodeId = .done fromPath ∧
        scene.getNodePath fuel connection.toNodeId = .done toPath ∧
        result = headingText "connection"
          (connectionAttributesWith connection fromPath toPath) := by
  constructor
  · intro hdone
    obtain ⟨attributes, hattributes, hresult⟩ := Run.bind_eq_done_iff.mp hdone
    obtain ⟨fromPath, hfrom, hrest⟩ := Run.bind_eq_done_iff.mp hattributes
    obtain ⟨toPath, hto, hends⟩ := Run.bind_eq_done_iff.mp hrest
    cases hends
    cases hresult
    exact ⟨fromPath, toPath, hfrom, hto, rfl⟩
  · rintro ⟨fromPath, toPath, hfrom, hto, rfl⟩
    simp [connectionText, connectionAttributes, hfrom, hto]

theorem connectionText_mono {fuel more : ℕ} {connection : GodotConnection} {result : String}
    (hdone : scene.connectionText fuel connection = .done result) (hle : fuel ≤ more) :
    scene.connectionText more connection = .done result := by
  obtain ⟨fromPath, toPath, hfrom, hto, rfl⟩ := scene.connectionText_eq_done_iff.mp hdone
  exact scene.connectionText_eq_done_iff.mpr ⟨fromPath, toPath,
    scene.getNodePath_mono hfrom hle, scene.getNodePath_mono hto hle, rfl⟩

end GodotScene

end Backstitch
